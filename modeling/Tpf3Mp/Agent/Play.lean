import Tpf3Mp.Agent.Relay
import Tpf3Mp.Agent.Bridge
import Tpf3Mp.Bridge.Session

/-!
A game, its hook, the link and the bridge playing a room over any number of connections (`play`). The
room is free: the bridge may hear any event. Beside the parts of the program the state keeps what each
message is about, which no function reads.
-/

namespace Tpf3Mp.Agent
open Proto Tpf3Mp.Bridge
open Server (Instant)

/-- What a message is about. `era` counts the streams that replaced the game's world, up to the one
whose world is meant; `number` is what `Session.command` returned. -/
structure Mark where
  era : Nat
  number : Nat
  deriving DecidableEq

structure Passed where
  message : GameMessage
  mark : Mark
  era : Nat
  deriving DecidableEq

inductive Stage where
  | detached
  | greeting
  | waiting
  | playing
  deriving DecidableEq

structure Play (γ : Type) where
  bridge : Bridge
  stage : Stage
  session : Session
  world : γ
  /-- The link to the hook; a load belongs to the era it was sent in. -/
  down : List (ToHook × Nat)
  /-- The link from the hook. -/
  up : List (ToAgent × Mark)
  /-- Background work not yet handled, with the era it is about. -/
  jobs : List (Effect × Nat)
  era : Nat
  /-- The era of the load the session works on. -/
  ordered : Nat
  /-- The era of the world the game runs. -/
  running : Nat
  /-- The era of the progress the bridge would report. -/
  described : Nat
  lost : Bool
  away : Bool
  ending : Option (Except BridgeFault BridgeEnd)
  passed : List Passed

def Effect.sent : Effect → Option GameMessage
  | .send message => some message
  | _ => none

def Effect.isJob : Effect → Bool
  | .ingest .. | .fetch .. | .upload .. => true
  | _ => false

def Effect.Answers : Effect → Done → Prop
  | .ingest event lanes _, .ingested event' lanes' _ => event' = event ∧ lanes' = lanes
  | .fetch attempt _, .fetched attempt' _ => attempt' = attempt
  | .upload _ snapshot, .uploaded snapshot' _ => snapshot' = snapshot
  | _, _ => False

/-- Whether an event replaces the game's world: a stream that starts from a world, or one that does
not go on from the turns the bridge has. Each begins a new era. -/
def Bridge.replaces (b : Bridge) : ClientEvent → Bool
  | .turnStream start => start.world.isSome || b.follower.all fun follower => !(follower.restart start).isOk
  | _ => false

def ToAgent.moves (world : World) : ToAgent → Bool
  | .loaded _ => true
  | .ran _ => world = .ready
  | _ => false

/-- What `play` does about how a call ended: it goes on, rejoins, or ends the session. A failed send
counts as a lost connection if the connection says in time that it closed. -/
inductive Goes : Except BridgeFault (Option BridgeEnd) → (away : Bool) →
      Option (Except BridgeFault BridgeEnd) → Prop where
  | on : Goes (.ok none) false none
  | lost : Goes (.error .disconnected) true none
  | closed : Goes (.ok (some (.closed true))) true none
  | unavailable : Goes (.ok (some .worldUnavailable)) true none
  | fails (fault : BridgeFault) : Goes (.error fault) false (some (.error fault))
  | closedForGood : Goes (.ok (some (.closed false))) false (some (.ok (.closed false)))
  | kicked : Goes (.ok (some .kicked)) false (some (.ok .kicked))

inductive Input where
  | read (message : ToAgent)
  | hear (event : ClientEvent)

/-- Which runs are meant, by what the bridge takes in and when. -/
abbrev Scope (γ : Type) := Play γ → Input → Prop

def anything {γ : Type} : Scope γ := fun _ _ => True

namespace Play
variable {γ : Type}

def begun (options : BridgeOptions) (beat : Nat) (now : Instant) (world : γ) : Play γ where
  bridge := .new options beat now
  stage := .detached
  session := .attached
  world
  down := []
  up := []
  jobs := []
  era := 0
  ordered := 0
  running := 0
  described := 0
  lost := false
  away := false
  ending := none
  passed := []

def after (p : Play γ) (o : Outcome) (mark : Mark) : Play γ :=
  { p with
    bridge := o.bridge
    jobs := p.jobs ++ (o.effects.filter Effect.isJob).map (·, mark.era)
    passed := p.passed ++ (o.effects.filterMap Effect.sent).map fun message => { message, mark, era := p.era } }

def replied (p : Play γ) (replies : List ToAgent) (number : Nat) : Play γ :=
  { p with up := p.up ++ replies.map fun reply => (reply, { era := p.running, number }) }

/-- A call of the bridge: what it comes to, what it is about, and the state with its input taken. -/
inductive Call (scope : Scope γ) (p : Play γ) : Outcome → Mark → Play γ → Prop where
  | reads {message : ToAgent} {mark : Mark} {rest : List (ToAgent × Mark)} (front : p.up = (message, mark) :: rest)
    (meant : scope p (.read message)) :
    Call scope p (p.bridge.readHook p.lost message) mark
      { p with up := rest, described := if ToAgent.moves p.bridge.world message then mark.era else p.described }
  | reports (now : Instant) : Call scope p (p.bridge.reportProgress p.lost now) { era := p.described, number := 0 } p
  | hears (event : ClientEvent) (now : Instant) (space : p.bridge.outbox.isFull = false)
    (meant : scope p (.hear event)) :
    Call scope p (p.bridge.onEvent now event) { era := p.era, number := 0 }
      { p with era := p.era + (p.bridge.replaces event).toNat }
  | finishes (before : List (Effect × Nat)) {rest : List (Effect × Nat)} {job : Effect} {era : Nat} (done : Done)
    (waiting : p.jobs = before ++ (job, era) :: rest) (answers : job.Answers done) :
    Call scope p (p.bridge.onDone p.lost done) { era, number := 0 } { p with jobs := before ++ rest }
  | checks (beat : Nat) (now : Instant) :
    Call scope p (p.bridge.checkHook beat now) { era := p.era, number := 0 } p

inductive Step (game : Game γ) (scope : Scope γ) (p : Play γ) : Play γ → Prop where
  | calls {o : Outcome} {mark : Mark} {q : Play γ} {away : Bool} {ending : Option (Except BridgeFault BridgeEnd)}
    (here : p.away = false) (live : p.ending = none) (call : Call scope p o mark q) (goes : Goes o.result away ending) :
    Step game scope p { q.after o mark with away, ending }
  | pumps {fuel : Nat} {now : Instant} {bridge : Bridge} (here : p.away = false) (live : p.ending = none)
    (ran : p.bridge.pumped fuel now = some bridge) : Step game scope p { p with bridge }
  | flushes {message : ToHook} {bridge : Bridge} (here : p.away = false) (live : p.ending = none)
    (front : p.bridge.flush = some (message, bridge)) :
    Step game scope p { p with bridge, down := p.down ++ [(message, p.era)] }
  | loses : Step game scope p { p with lost := true }
  | rejoins (gone : p.away = true) : Step game scope p { p with away := false, lost := false }
  | attaches (build : Text 64) (fresh : p.stage = .detached) :
    Step game scope p { p.replied [.hello bridgeVersion build] 0 with stage := .greeting }
  | greets {message : ToHook} {era : Nat} {rest : List (ToHook × Nat)} (stage : p.stage = .greeting)
    (front : p.down = (message, era) :: rest) (greeted : Session.greeted message = .ok ()) :
    Step game scope p { p with stage := .waiting, down := rest }
  | begins {message : ToHook} {era : Nat} {rest : List (ToHook × Nat)} {session : Option Session}
    (stage : p.stage = .waiting) (front : p.down = (message, era) :: rest)
    (waited : p.session.waitForBegin message = .ok session) :
    Step game scope p { p with
      session := session.getD p.session
      stage := if session.isSome then .playing else .waiting
      down := rest }
  | handles {message : ToHook} {era : Nat} {rest : List (ToHook × Nat)} {session : Session} {world : γ}
    {replies : List ToAgent} (stage : p.stage = .playing) (waits : p.session.stepGate = .wait)
    (front : p.down = (message, era) :: rest)
    (handled : p.session.handle game p.world message = .ok (session, world, replies)) :
    Step game scope p { p.replied replies 0 with session, world, down := rest, ordered := era }
  | loads {load : Load} {session : Session} {replies : List ToAgent} (world : γ) (stage : p.stage = .playing)
    (due : p.session.stepGate = .load load) (loaded : p.session.loaded load.nextStep = .ok (session, replies)) :
    Step game scope p { replied { p with running := p.ordered } replies 0 with session, world }
  | runs {session : Session} {replies : List ToAgent} (world : γ) (stage : p.stage = .playing)
    (may : p.session.stepGate = .run) (stepped : p.session.afterStep game world = .ok (session, replies)) :
    Step game scope p { p.replied replies 0 with session, world }
  | commands {payload : Payload} {number : Nat} {session : Session} {replies : List ToAgent}
    (stage : p.stage = .playing) (handed : p.session.command payload = (number, session, replies)) :
    Step game scope p { p.replied replies number with session }
  | chats {text : ChatText} (stage : p.stage = .playing) : Step game scope p (p.replied [.chat text] 0)
  | logs {line : Text 256} (stage : p.stage = .playing) : Step game scope p (p.replied [.log line] 0)

inductive Reaches (game : Game γ) (scope : Scope γ) : Play γ → Prop where
  | start (options : BridgeOptions) (beat : Nat) (now : Instant) (world : γ) :
    Reaches game scope (begun options beat now world)
  | step {p q : Play γ} (before : Reaches game scope p) (moved : Step game scope p q) : Reaches game scope q

end Play

end Tpf3Mp.Agent
