import Tpf3Mp.Server.RoomSeats

/-!
What a room does with its members' reports and with time (`tpf3mp-server`, `room.rs`): progress,
checkpoint rounds, saves and their uploads, sealing at every tick, and the commands it takes.
-/

namespace Tpf3Mp.Server
open Codec Proto Data

def checkpointDeadline : Duration := Duration.ofSecs 30
def minVerdictReports : Nat := 2
def maxOpenRounds : Nat := 64
def rebaseGap : Duration := Duration.ofSecs 300

def holdsClock (member : Member) : Bool := member.streaming || (member.pace == .loading && member.link.isSome)

def Pace.paces : Pace → Bool
  | .loading | .following _ => true
  | .catchingUp _ => false

def Pace.next (pace : Pace) (step window sealed : Nat) : Pace :=
  match pace with
  | .loading => .following step
  | .following previous => .following (max previous step)
  | .catchingUp _ => if satAdd step window ≥ sealed then .following step else .catchingUp (some step)

def Pace.moved : Pace → Pace → Bool
  | .following before, .following after => after > before
  | _, .following _ => true
  | _, _ => false

def roundComplete (members : List Member) (round : Round) : Bool :=
  (members.filter fun member => member.streaming && member.pace.paces).all fun member =>
    round.reports.any fun report => report.player = member.player

def saveComplete (members : List Member) (round : SaveRound) : Bool :=
  (members.filter fun member => member.streaming && member.streamFrom ≤ round.point.event && member.pace.paces).all
    fun member => round.reports.any fun save => save.report.player = member.player

def decideRound (round : Round) : Round × List Divergence :=
  let (verdict, diverged) := Verdict.decide round.reports
  ({ round with verdict := some verdict }, diverged)

def slowestPacer (members : List Member) : Option Nat :=
  let pacing := members.filter holdsClock
  if pacing.any fun member => member.pace == .loading then none
  else
    pacing.foldl (fun slowest member =>
      match member.pace with
      | .following step => some (slowest.elim step (min step))
      | _ => slowest) none

def sortLanes (lanes : List LaneDigest) : List LaneDigest :=
  dedupByKey LaneDigest.lane (lanes.insertionSort fun a b => a.lane ≤ b.lane)

namespace Room
variable {σ : Type} (o : Oracle)

def setReady (r : Room σ) (player : PlayerId) (ready : Bool) : Room σ × Except RequestError Bool :=
  match r.phase with
  | .running _ => (r, .error .gameRunning)
  | .lobby =>
    match (r.position player).bind fun index => r.members[index]?.map fun member => (index, member) with
    | none => (r, .error .notInRoom)
    | some (index, member) => (r.setMember index { member with ready }, .ok (member.ready ≠ ready))

def declareContent (r : Room σ) (player : PlayerId) (content : ContentFingerprint) :
    Room σ × Except RequestError Bool :=
  match r.phase with
  | .running _ => (r, .error .gameRunning)
  | .lobby =>
    match (r.position player).bind fun index => r.members[index]?.map fun member => (index, member) with
    | none => (r, .error .notInRoom)
    | some (index, member) =>
      (r.setMember index { member with content := some content }, .ok (member.content ≠ some content))

def setSpeed (r : Room σ) (player : PlayerId) (speed : Speed) : Room σ × Except RequestError Unit :=
  if player ≠ r.owner then (r, .error .notOwner)
  else match r.phase with
    | .lobby => (r, .error .gameNotRunning)
    | .running game =>
      if speed.percent > Speed.maximum.percent then (r, .error .invalidSettings)
      else (r.withGame { game with speed }, .ok ())

def chat (r : Room σ) (now : Instant) (player : PlayerId) (text : ChatText) : Room σ × Except RequestError Unit :=
  match (r.position player).bind fun index => r.members[index]?.map fun member => (index, member) with
  | none => (r, .error .notInRoom)
  | some (index, member) =>
    let (taken, chats) := member.chats.take now 1
    let r := r.setMember index { member with chats }
    if taken then (r.forMembers fun r index => r.push o index (.chat player text), .ok ())
    else (r, .error .rateLimited)

def intent (r : Room σ) (now : Instant) (player : PlayerId) (clientSeq : UInt64) (payload : Payload) : Room σ :=
  match (r.position player).bind fun index => r.members[index]?.map fun member => (index, member) with
  | none => r
  | some (index, member) =>
    match r.phase with
    | .lobby => r.push o index (.intentRejected clientSeq .gameNotRunning)
    | .running game =>
      let (taken, intents) := member.intents.take now 1
      let r := r.setMember index { member with intents }
      if !taken then r.push o index (.intentRejected clientSeq .rateLimited)
      else
        let (taken, payloadBytes) := member.payloadBytes.take now payload.1.length
        let r := r.setMember index { member with intents, payloadBytes }
        if !taken then r.push o index (.intentRejected clientSeq .rateLimited)
        else match r.ruleset.validate r.state player payload with
          | .error code => r.push o index (.intentRejected clientSeq (.refused code))
          | .ok () => r.append game (.command player clientSeq payload)

def progress (r : Room σ) (now : Instant) (player : PlayerId) (link : UInt64) (step : Nat) : Room σ :=
  match r.phase with
  | .lobby => r
  | .running game =>
    match (r.linked player link).bind fun index => r.members[index]?.map fun member => (index, member) with
    | none => r
    | some (index, member) =>
      if step > game.sealedThrough then
        -- Executing an unsealed step breaks the protocol's central rule.
        let r := r.emit (.closed player link .protocolViolation "progress beyond the frontier")
        r.setMember index member.unlinked
      else
        let pace := Pace.next member.pace step (game.pacer.window game.speed) game.sealedThrough
        let advanced := if Pace.moved member.pace pace then now else member.advanced
        r.setMember index { member with pace, advanced }

def demote (game : Game) (timeouts : Timeouts) (now : Instant) (member : Member) : Member :=
  if !holdsClock member then member
  else if game.speed.isPaused then { member with advanced := now }
  else
    match member.pace with
    | .loading =>
      if now - game.started ≥ timeouts.load then { member with pace := .catchingUp none } else member
    | .following step =>
      if step < game.sealedThrough && now - member.advanced ≥ timeouts.stall then
        { member with pace := .catchingUp (some step) }
      else member
    | .catchingUp _ => member

def demoteStalled (r : Room σ) (now : Instant) : Room σ :=
  match r.phase with
  | .lobby => r
  | .running game => { r with members := r.members.map (demote game r.timeouts now) }

def announce (now : Instant) (step : Nat) (r : Room σ) (notice : Divergence) : Room σ :=
  let (player, lanes) := notice
  match r.position player with
  | none => r
  | some index =>
    let r := r.push o index (.diverged step lanes)
    match r.members[index]? with
    | none => r
    | some member =>
      let rested := member.rebased.all fun at_ => now - at_ ≥ rebaseGap
      if r.snapshots.isSome && member.needs == .nothing && rested then
        r.setMember index { member with needs := .rebase step }
      else r

def announceDivergence (r : Room σ) (now : Instant) (step : Nat) (notices : List Divergence) : Room σ :=
  if notices.isEmpty then r
  else
    let r := notices.foldl (announce o now step) r
    r.offerWorlds o now

/-- A report of a checkpoint round, and whom it shows to have diverged. -/
def reportRound (members : List Member) (round : Round) (report : Report) : Round × List Divergence :=
  let reported := { round with reports := round.reports ++ [report] }
  match round.verdict with
  | some verdict =>
    -- A late report is judged against the decided verdict.
    let diverged := Verdict.divergingLanes report.lanes verdict
    (reported, if diverged.isEmpty then [] else [(report.player, diverged)])
  | none =>
    if reported.reports.length ≥ minVerdictReports && roundComplete members reported then decideRound reported
    else (reported, [])

def checkpoint (r : Room σ) (now : Instant) (player : PlayerId) (link : UInt64) (step : Nat) (lanes : List LaneDigest) :
    Room σ :=
  match r.phase with
  | .lobby => r
  | .running game =>
    match (r.linked player link).bind fun order => r.members[order]?.map fun member => (order, member) with
    | none => r
    | some (order, member) =>
      let known := game.rounds.find step
      let openRounds := (game.rounds.filter fun entry => entry.2.verdict.isNone).length
      if step = 0 || step % r.settings.checkpointInterval.toNat ≠ 0 || step > game.sealedThrough then r
      else if step ≤ game.roundsClosedThrough && known.isNone then r
      else if known.isNone && openRounds ≥ maxOpenRounds then r
      else
        let round := known.getD { opened := now, reports := [], verdict := none }
        if round.reports.any fun report => report.player = player then r
        else
          let report : Report := { player, platform := member.platform, order, lanes := sortLanes lanes }
          let (round, notices) := reportRound r.members round report
          let game := { game with rounds := game.rounds.insert step round }.pruneRounds
          (r.withGame game).announceDivergence o now step notices

/-- What waiting does to one round: it is decided, it closes without a verdict, or it waits on. -/
inductive Waiting where
  | decided (round : Round) (notices : List Divergence)
  | expired
  | open (round : Round)
  deriving DecidableEq

def waitRound (members : List Member) (now : Instant) (round : Round) : Waiting :=
  if round.verdict.isSome then .open round
  else
    let overdue := now - round.opened ≥ checkpointDeadline
    let enough := round.reports.length ≥ minVerdictReports
    if enough && (overdue || roundComplete members round) then
      let (round, notices) := decideRound round
      .decided round notices
    else if overdue then .expired
    else .open round

def decideWaitingRounds (r : Room σ) (now : Instant) : Room σ :=
  match r.phase with
  | .lobby => r
  | .running game =>
    let waited := game.rounds.map fun (step, round) => (step, round, waitRound r.members now round)
    let rounds := waited.map fun (step, round, waiting) =>
      match waiting with
      | .decided round _ => (step, round)
      | .expired | .open _ => (step, round)
    let decided := waited.filterMap fun (step, _, waiting) =>
      match waiting with
      | .decided _ notices => some (step, notices)
      | .expired | .open _ => none
    let expired := (waited.filter fun (_, _, waiting) => waiting = .expired).map Prod.fst
    let game := expired.foldl Game.closeRound { game with rounds }
    if decided.isEmpty then r.withGame game
    else decided.foldl (fun r (step, notices) => r.announceDivergence o now step notices) (r.withGame game.pruneRounds)

def promote (r : Room σ) (now : Instant) (agreed : Agreed) : Room σ :=
  match r.phase with
  | .lobby => r
  | .running game =>
    let saves := { game.saves with previous := game.saves.current, current := some agreed }
    (r.withGame { game with saves }).offerWorlds o now

def askForUpload (r : Room σ) (now : Instant) (point : SavePoint) : Candidates → Room σ
  | [] => r
  | (player, world) :: rest =>
    match r.phase with
    | .lobby => r
    | .running game =>
      match game.saves.find world.snapshot with
      | some held => r.promote o now { manifest := held.manifest, point }
      | none =>
        match r.members.findIdx? fun member => member.player = player && member.link.isSome with
        | none => r.askForUpload now point rest
        | some index =>
          let upload : Upload := { point, sender := player, world, rest, asked := now, receiving := false }
          let r := r.withGame { game with saves := { game.saves with upload := some upload } }
          r.push o index (.upload point.event world.snapshot)

def decideSave (r : Room σ) (now : Instant) (event : Nat) : Room σ :=
  match r.phase with
  | .lobby => r
  | .running game =>
    match game.saves.rounds.find event with
    | none => r
    | some round =>
      let r := r.withGame { game with saves := { game.saves with rounds := game.saves.rounds.erase event } }
      let (candidates, diverged) := decideSaves round.reports
      let r := r.announceDivergence o now round.point.sealedThrough diverged
      r.askForUpload o now round.point (failedLast game.saves.failed candidates)

def saved (r : Room σ) (now : Instant) (player : PlayerId) (link : UInt64) (event : Nat) (lanes : List LaneDigest)
    (world : Option SavedWorld) : Room σ :=
  match (r.linked player link).bind fun order => r.members[order]?.map fun member => (order, member) with
  | none => r
  | some (order, member) =>
    if !member.streaming || member.streamFrom > event then r
    else match r.phase with
      | .lobby => r
      | .running game =>
        match game.saves.rounds.find event with
        | none => r
        | some round =>
          if round.reports.any fun save => save.report.player = player then r
          else
            let report : Report := { player, platform := member.platform, order, lanes := sortLanes lanes }
            let round := { round with reports := round.reports ++ [{ report, world }] }
            let saves := { game.saves with rounds := game.saves.rounds.insert event round }
            let r := r.withGame { game with saves }
            if saveComplete r.members round then r.decideSave o now event else r

/-- The manifest a member's connection may fetch: the snapshot the room offered that connection. -/
def fetchable (r : Room σ) (player : PlayerId) (link : UInt64) (snapshot : SnapshotId) : Option Manifest := do
  let index ← r.linked player link
  let member ← r.members[index]?
  if member.offered ≠ some snapshot then none
  else match r.phase with
    | .lobby => none
    | .running game => (game.saves.find snapshot).map Agreed.manifest

def uploadStarts (r : Room σ) (player : PlayerId) (link : UInt64) (snapshot : SnapshotId) : Room σ × Bool :=
  match r.phase with
  | .lobby => (r, false)
  | .running game =>
    match game.saves.upload with
    | none => (r, false)
    | some upload =>
      if (r.linked player link).isSome && upload.sender = player && upload.world.snapshot = snapshot &&
          !upload.receiving then
        let saves := { game.saves with upload := some { upload with receiving := true } }
        (r.withGame { game with saves }, true)
      else (r, false)

def uploaded (r : Room σ) (now : Instant) (player : PlayerId) (snapshot : SnapshotId)
    (result : Except String Manifest) : Room σ :=
  match r.phase with
  | .lobby => r
  | .running game =>
    match game.saves.upload with
    | none => r
    | some upload =>
      if upload.sender = player && upload.world.snapshot = snapshot then
        let saves := { game.saves with upload := none }
        match result with
        | .ok manifest => (r.withGame { game with saves }).promote o now { manifest, point := upload.point }
        | .error _ =>
          (r.withGame { game with saves := saves.failedUploader player }).askForUpload o now upload.point upload.rest
      else r

def saveIfDue (r : Room σ) (snapshots : Snapshots) (now : Instant) : Room σ :=
  let playing := r.members.any fun member => member.streaming && match member.pace with
    | .following _ => true
    | _ => false
  match r.phase with
  | .lobby => r
  | .running game =>
    let log := (game.sealedThrough, game.nextEvent)
    if !playing || !game.saves.due now snapshots.every snapshots.minGap game.started log then r
    else
      match game.save r.ruleset r.state with
      | (game, state, .error _) =>
        { r with phase := .running game, state }.closeAll .shuttingDown "internal error"
      | (game, state, .ok (point, frames)) =>
        let saves := { game.saves with
          rounds := game.saves.rounds.insert point.event { point, opened := now, reports := [] }
          lastSave := some now
          lastPoint := some point }
        { r with phase := .running { game with saves }, state }.publish o frames

def uploadStalled (now : Instant) (upload : Upload) : Bool :=
  let waited := now - upload.asked
  if upload.receiving then waited ≥ uploadDeadline upload.world.size else waited ≥ uploadStart

def endUpload (r : Room σ) (upload : Upload) : Room σ :=
  if !upload.receiving then r
  else match (r.position upload.sender).bind fun index => r.members[index]?.map fun member => (index, member) with
    | none => r
    | some (index, member) =>
      match member.link with
      | none => r
      | some link =>
        let r := r.emit (.closed upload.sender link .slowConsumer "the upload was too slow")
        r.setMember index member.unlinked

def runSaves (r : Room σ) (now : Instant) : Room σ :=
  match r.snapshots, r.phase with
  | some snapshots, .running game =>
    let ready := (game.saves.rounds.filter fun entry =>
      now - entry.2.opened ≥ saveDeadline || saveComplete r.members entry.2).map Prod.fst
    let stalled := game.saves.upload.filter (uploadStalled now)
    let saves := match stalled with
      | some upload => { game.saves with upload := none }.failedUploader upload.sender
      | none => game.saves
    let r := r.withGame { game with saves }
    let r := ready.foldl (fun r event => r.decideSave o now event) r
    let r := match stalled with
      | some upload => (r.endUpload upload).askForUpload o now upload.point upload.rest
      | none => r
    r.saveIfDue o snapshots now
  | _, _ => r

def expireIfAbandoned (r : Room σ) (now : Instant) : Room σ :=
  match r.phase with
  | .lobby => r
  | .running _ =>
    if r.members.any fun member => member.link.isSome then { r with unattendedSince := none }
    else
      let since := r.unattendedSince.getD now
      let r := { r with unattendedSince := some since }
      if now - since < r.timeouts.abandoned then r else { r.discardGame with closed := true }

def sweepSeats : Nat → Room σ → Room σ
  | 0, r => r
  | rounds + 1, r =>
    match r.members.findIdx? fun member => member.link.isNone with
    | none => r
    | some index =>
      match r.members[index]? with
      | none => r
      | some member =>
        let r := { r with members := r.members.eraseIdx index }.afterDeparture o member.player
        if r.closed then r else sweepSeats rounds r

def sweepLobby (r : Room σ) : Room σ :=
  match r.phase with
  | .running _ => r
  | .lobby => r.sweepSeats o r.members.length

def tickSaves (r : Room σ) (now : Instant) : Room σ :=
  let r := r.sweepLobby o
  let r := r.expireIfAbandoned now
  if r.closed then r
  else
    let r := r.decideWaitingRounds o now
    let r := r.demoteStalled now
    r.runSaves o now

def tickSeal (r : Room σ) (now : Instant) : Room σ :=
  if r.closed then r
  else match r.phase with
    | .lobby => r
    | .running game =>
      let (frontier, pacer) :=
        game.pacer.advance (now - game.lastTick) game.speed (slowestPacer r.members) game.sealedThrough
      let game := { game with lastTick := now, pacer }
      if frontier = game.sealedThrough && game.pending.isEmpty && game.speed = game.announcedSpeed then r.withGame game
      else
        match game.sealPending frontier with
        | (game, .error _) => (r.withGame game).closeAll .shuttingDown "internal error"
        | (game, .ok frames) => (r.withGame game).publish o frames

def onTick (r : Room σ) (now : Instant) : Room σ := (r.tickSaves o now).tickSeal o now

end Room

inductive RoomCommand where
  | join (member : NewMember) (token : FixedBytes 32) (password : Option (Text 64)) (resume : Option Resume)
    (content : Option ContentFingerprint)
  | leave (player : PlayerId)
  | disconnected (player : PlayerId) (link : UInt64)
  | setReady (player : PlayerId) (ready : Bool)
  | declareContent (player : PlayerId) (content : ContentFingerprint)
  | start (player : PlayerId)
  | setSpeed (player : PlayerId) (speed : Speed)
  | kick (player target : PlayerId)
  | isMember (player : PlayerId)
  | chat (player : PlayerId) (text : ChatText)
  | intent (player : PlayerId) (clientSeq : UInt64) (payload : Payload)
  | progress (player : PlayerId) (link : UInt64) (step : Nat)
  | checkpoint (player : PlayerId) (link : UInt64) (step : Nat) (lanes : List LaneDigest)
  | saved (player : PlayerId) (link : UInt64) (event : Nat) (lanes : List LaneDigest) (world : Option SavedWorld)
  | fetch (player : PlayerId) (link : UInt64) (snapshot : SnapshotId)
  | upload (player : PlayerId) (link : UInt64) (snapshot : SnapshotId)
  | uploaded (player : PlayerId) (snapshot : SnapshotId) (result : Except String Manifest)

inductive Reply where
  | none
  | answer (result : Except RequestError Unit)
  | view (result : Except RequestError RoomView)
  | manifest (found : Option Manifest)
  | flag (value : Bool)

namespace Room
variable {σ : Type} (o : Oracle)

def answerAndBroadcast (result : Room σ × Except RequestError Unit) : Room σ × Reply :=
  (match result.2 with
    | .ok () => result.1.broadcastView o
    | .error _ => result.1, .answer result.2)

/-- Repeating a request does not make the room broadcast to everyone again. -/
def answerAndBroadcastIfChanged (result : Room σ × Except RequestError Bool) : Room σ × Reply :=
  (match result.2 with
    | .ok true => result.1.broadcastView o
    | .ok false | .error _ => result.1, .answer (result.2.map fun _ => ()))

def handle (r : Room σ) (now : Instant) : RoomCommand → Room σ × Reply
  | .join member token password resume content =>
    let (r, result) := r.join o now member token password resume content
    (match result with
      | .ok _ => r.broadcastView o
      | .error _ => r, .view result)
  | .leave player =>
    let (r, result) := r.leave o player false
    (r, .answer result)
  | .disconnected player link => (r.disconnected o player link, .none)
  | .setReady player ready => answerAndBroadcastIfChanged o (r.setReady player ready)
  | .declareContent player content => answerAndBroadcastIfChanged o (r.declareContent player content)
  | .start player => answerAndBroadcast o (r.start o now player)
  | .setSpeed player speed =>
    let (r, result) := r.setSpeed player speed
    (r, .answer result)
  | .kick player target =>
    let (r, result) := r.kick o player target
    (r, .answer result)
  | .isMember player =>
    (r, .answer (if r.members.any fun member => member.player = player then .ok () else .error .notInRoom))
  | .chat player text =>
    let (r, result) := r.chat o now player text
    (r, .answer result)
  | .intent player clientSeq payload => (r.intent o now player clientSeq payload, .none)
  | .progress player link step => (r.progress now player link step, .none)
  | .checkpoint player link step lanes => (r.checkpoint o now player link step lanes, .none)
  | .saved player link event lanes world => (r.saved o now player link event lanes world, .none)
  | .fetch player link snapshot => (r, .manifest (r.fetchable player link snapshot))
  | .upload player link snapshot =>
    let (r, starts) := r.uploadStarts player link snapshot
    (r, .flag starts)
  | .uploaded player snapshot result => (r.uploaded o now player snapshot result, .none)

end Room

end Tpf3Mp.Server
