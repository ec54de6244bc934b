import Tpf3Mp.Server.Room

/-!
How players come and go (`tpf3mp-server`, `room.rs`): joining, leaving and starting a room, the worlds
it offers to members who need one, and the log of its game with its compaction.
-/

namespace Tpf3Mp.Server
open Codec Proto Data

def Member.servedBy (member : Member) (agreed : Agreed) : Bool :=
  match member.needs with
  | .nothing => false
  | .world => true
  | .rebase after => agreed.point.sealedThrough ≥ after

inductive Rejoin where
  | lobby
  | stream (feed : TurnFeed)
  | world
  deriving DecidableEq

/-- How the rewrite of a log ended: it ran, with these writes, or its task was lost. -/
inductive Rewrite where
  | ran (writes : Nat → Write) (synced : Bool)
  | lost

namespace Room
variable {σ : Type} (o : Oracle)

def feedFor (r : Room σ) (game : Game) (member : Member) : Option (TurnFeed × Nat) :=
  (game.saves.current.filter member.servedBy).bind fun agreed =>
    (game.feedFrom r.id r.settings r.rules agreed).toOption

def needsWorld (member : Member) : Bool := member.needs ≠ .nothing && member.link.isSome

def serve (now : Instant) (offered : Option SnapshotId) (r : Room σ) (entry : Nat × TurnFeed × Nat) : Room σ :=
  let (index, feed, streamFrom) := entry
  match r.members[index]? with
  | none => r
  | some member =>
    match member.link with
    | none => r
    | some link =>
      let (sent, r) := r.trySend o (.turn member.player link feed)
      if sent ≠ .done then r.setMember index { member with streaming := false }
      else
        r.setMember index { member with
          streaming := true
          rebased := match member.needs with
            | .rebase _ => some now
            | _ => member.rebased
          needs := .nothing
          offered
          pace := if member.pace = .loading then .loading else .catchingUp none
          streamFrom }

def offerWorlds (r : Room σ) (now : Instant) : Room σ :=
  match r.phase with
  | .lobby => r
  | .running game =>
    let waiting := r.members.any fun member => needsWorld member && (r.feedFor game member).isNone
    let feeds := r.members.zipIdx.filterMap fun (member, index) =>
      if needsWorld member then (r.feedFor game member).map fun feed => (index, feed) else none
    let offered := game.saves.current.map Agreed.id
    let r := r.withGame { game with saves := { game.saves with wanted := waiting } }
    feeds.foldl (serve o now offered) r

def startRecord (r : Room σ) (history : UInt64) (base : Option Base) : StartRecord where
  version := formatVersion
  history
  id := r.id
  name := r.name
  rules := r.rules
  owner := r.owner
  maxPlayers := r.maxPlayers
  settings := r.settings
  inviteTag := r.secrets.inviteTag
  passwordTag := r.secrets.passwordTag
  members := r.members.map fun member =>
    { player := member.player, name := member.name, platform := member.platform, content := member.content }
  base

def openLog (r : Room σ) (history : UInt64) : Room σ :=
  if r.dataDir then
    let (disk, created) := RoomLog.create (r.startRecord history none) (o.write r.calls) (o.synced r.calls) r.disk
    let r := { r with disk, calls := r.calls + 1 }
    match created with
    | .ok log => { r with log := some log }
    | .error _ => r
  else r

/-- Starts rewriting a long log from where the game stands. Runs right after sealing. -/
def startCompaction (r : Room σ) : Room σ :=
  match r.compaction, r.log, r.phase with
  | none, some log, .running game =>
    if !r.dataDir || log.written < r.compactAt || game.pending ≠ [] then r
    else
      match r.ruleset.save r.state with
      | none => { r with compactAt := u64Max }
      | some rules =>
        let base := game.base rules r.content r.banned
        let first := (game.histories.head?.map History.id).getD 0
        let compaction : Compaction :=
          { start := r.startRecord first (some base), frames := game.log.map LoggedTurn.frame, tail := [] }
        { r with compaction := some compaction }
  | _, _, _ => r

/-- The rewritten log with the turns sealed since, put in place, or the error that kept it out. -/
def installed (compaction : Compaction) (done : Rewrite) (writes : Nat → Write) (renamed : Bool) (disk : Disk) :
    Disk × Except IoError RoomLog :=
  match done with
  | .lost => (disk, .error .device)
  | .ran rewrites synced =>
    match RoomLog.compacted compaction.start compaction.frames rewrites synced disk with
    | (disk, .error error) => (disk, .error error)
    | (disk, .ok log) =>
      match log.appendAll compaction.tail writes disk with
      | (disk, .error error) => (log.discard disk, .error error)
      | (disk, .ok log) =>
        match log.install renamed disk with
        | (disk, .error error) => (log.discard disk, .error error)
        | (disk, .ok log) => (disk, .ok log)

/-- Puts a finished rewrite in place of the room's log. Until then, and if anything fails, the old
log stays the room's. -/
def finishCompaction (r : Room σ) (done : Rewrite) (writes : Nat → Write) (renamed : Bool) : Room σ :=
  match r.compaction with
  | none => r
  | some compaction =>
    let before := (r.log.map RoomLog.written).getD 0
    let (disk, result) := installed compaction done writes renamed r.disk
    let r := { r with compaction := none, disk }
    match result with
    | .ok log => { r with compactAt := nextCompaction log.written r.compactLogAt, log := some log }
    | .error _ => { r with compactAt := nextCompaction before r.compactLogAt }

def discardGame (r : Room σ) : Room σ :=
  { r with compaction := none, log := none, disk := r.log.elim r.disk fun log => log.delete r.disk }

def publishFrame (r : Room σ) (frame : Bytes) : Room σ :=
  (r.emit (.sealed frame)).forMembers fun r index =>
    if r.members[index]?.any Member.streaming then r.sendTurn o index (.frame frame) else r

def logFrames (r : Room σ) (frames : List Bytes) : Room σ :=
  match r.log with
  | none => r
  | some log =>
    let (disk, appended) := log.appendAll frames (fun index => o.write (r.calls + index)) r.disk
    { r with disk, calls := r.calls + frames.length, log := appended.toOption }

def publish (r : Room σ) (frames : List Bytes) : Room σ :=
  let r := r.logFrames o frames
  -- A rewrite under way gets the frames too, logged or not.
  let r := { r with compaction := r.compaction.map fun compaction =>
    { compaction with tail := compaction.tail ++ frames } }
  let r := frames.foldl (publishFrame o) r
  r.startCompaction

def append (r : Room σ) (game : Game) (body : EventBody) : Room σ :=
  let (game, state) := game.append body r.ruleset r.state
  { r with phase := .running game, state }

def afterDeparture (r : Room σ) (player : PlayerId) : Room σ :=
  match r.members with
  | [] => { r.discardGame with closed := true }
  | first :: _ =>
    let r := if r.owner = player then { r with owner := first.player } else r
    r.broadcastView o

def rejoin (r : Room σ) (resume : Option Resume) (content : Option ContentFingerprint) :
    Except RequestError Rejoin :=
  match r.phase with
  | .lobby => .ok .lobby
  | .running game =>
    if content.isSome && content ≠ r.content then .error .contentMismatch
    else if resume.isNone && r.snapshots.isSome then .ok .world
    else (game.resumeFeed r.id r.settings r.rules resume).map .stream

def replaceLink (r : Room σ) (member : Member) (link : UInt64) : Room σ :=
  match member.link with
  | some old =>
    if old ≠ link then r.emit (.closed member.player old .replaced "signed in on another connection") else r
  | none => r

def takeOver (r : Room σ) (index : Nat) (member : Member) (new : NewMember) (rejoin : Rejoin) : Room σ :=
  let r := r.replaceLink member new.link
  let member := { member with
    name := new.name
    platform := new.platform
    streaming := false
    offered := none
    link := some new.link }
  match rejoin with
  | .lobby => r.setMember index member
  | .world => r.setMember index { member with pace := .catchingUp none, needs := .world }
  | .stream feed =>
    let streamFrom := match feed with
      | .opened start _ => start.nextEvent
      | _ => member.streamFrom
    let (sent, r) := r.trySend o (.turn new.player new.link feed)
    r.setMember index { member with
      pace := .catchingUp none
      needs := .nothing
      streamFrom
      streaming := sent = .done }

def takeSeat (r : Room σ) (now : Instant) (new : NewMember) (content : Option ContentFingerprint) :
    Room σ × Except RequestError RoomView :=
  let full := r.members.length ≥ r.maxPlayers.toNat
  match r.phase with
  | .running game =>
    if r.snapshots.isNone then (r, .error .gameRunning)
    else if full then (r, .error .roomFull)
    else if content.isNone || content ≠ r.content then (r, .error .contentMismatch)
    else
      let r := r.append game (.playerJoined new.player new.name new.platform)
      let member := { Member.new new now with ready := true, content, needs := .world }
      let r := { r with members := r.members ++ [member] }
      let r := r.offerWorlds o now
      (r, .ok r.view)
  | .lobby =>
    if full then (r, .error .roomFull)
    else
      let r := { r with members := r.members ++ [.new new now] }
      (r, .ok r.view)

def admitMember (r : Room σ) (now : Instant) (new : NewMember) (resume : Option Resume)
    (content : Option ContentFingerprint) : Room σ × Except RequestError RoomView :=
  match r.position new.player with
  | none => r.takeSeat o now new content
  | some index =>
    match r.members[index]? with
    | none => (r, .error .notInRoom)
    | some member =>
      -- The resume point is checked before the seat is touched.
      match r.rejoin resume content with
      | .error error => (r, .error error)
      | .ok rejoin =>
        let r := r.takeOver o index member new rejoin
        let r := r.offerWorlds o now
        (r, .ok r.view)

def join (r : Room σ) (now : Instant) (new : NewMember) (token : FixedBytes 32) (password : Option (Text 64))
    (resume : Option Resume) (content : Option ContentFingerprint) : Room σ × Except RequestError RoomView :=
  if r.banned.contains new.player then (r, .error .badInvite)
  else
    let seated := (r.position new.player).isSome
    match r.secrets.check r.id token password with
    | .admitted =>
      if seated then r.admitMember o now new resume content
      else
        let (isOpen, passwordGuard) := r.passwordGuard.isOpen now
        let r := { r with passwordGuard }
        if isOpen then r.admitMember o now new resume content else (r, .error .badInvite)
    | .wrongPassword =>
      if seated then (r, .error .badInvite)
      else ({ r with passwordGuard := r.passwordGuard.failed now }, .error .badInvite)
    | .wrongInvite => (r, .error .badInvite)

def leave (r : Room σ) (player : PlayerId) (kicked : Bool) : Room σ × Except RequestError Unit :=
  match r.position player with
  | none => (r, .error .notInRoom)
  | some index =>
    let member := r.members[index]?
    let r := { r with members := r.members.eraseIdx index }
    let r := match member.bind fun member => if member.streaming then member.link else none with
      | some link => (r.trySend o (.turn player link .close)).2
      | none => r
    let r := match r.phase with
      | .running game => r.append game (.playerLeft player kicked)
      | .lobby => r
    (r.afterDeparture o player, .ok ())

def kick (r : Room σ) (kicker target : PlayerId) : Room σ × Except RequestError Unit :=
  if kicker ≠ r.owner then (r, .error .notOwner)
  else if target = kicker then (r, .error .cannotKickSelf)
  else match r.position target with
    | none => (r, .error .noSuchPlayer)
    | some index =>
      let r := r.push o index .kicked
      let r :=
        if r.banned.length < maxBanned then { r with banned := r.banned.insert target } else r
      r.leave o target true

def disconnected (r : Room σ) (player : PlayerId) (link : UInt64) : Room σ :=
  match r.members.findIdx? fun member => member.player = player && member.link.all (· = link) with
  | none => r
  | some index =>
    match r.phase with
    -- A lobby seat is not held for anyone.
    | .lobby => { r with members := r.members.eraseIdx index }.afterDeparture o player
    | .running _ =>
      match r.members[index]? with
      | none => r
      | some member => (r.setMember index member.unlinked).broadcastView o

/-- Opens the first stream of a member when the game starts, or leaves it waiting for the owner's
world. -/
def startMember (opened : TurnStart) (sharedWorld : Bool) (r : Room σ) (index : Nat) : Room σ :=
  match r.members[index]? with
  | none => r
  | some member =>
    let member := { member with pace := .loading, streamFrom := 1, streaming := false }
    if sharedWorld && member.player ≠ r.owner then r.setMember index { member with needs := .world }
    else
      let member := { member with needs := .nothing }
      match member.link with
      | none => r.setMember index member
      | some link =>
        let (sent, r) := r.trySend o (.turn member.player link (.opened opened []))
        r.setMember index { member with streaming := sent = .done }

def seatMembers (r : Room σ) (game : Game) : Game × σ :=
  r.members.foldl (fun (game, state) member =>
    game.append (.playerJoined member.player member.name member.platform) r.ruleset state) (game, r.state)

def start (r : Room σ) (now : Instant) (player : PlayerId) : Room σ × Except RequestError Unit :=
  if player ≠ r.owner then (r, .error .notOwner)
  else match r.phase with
    | .running _ => (r, .error .gameRunning)
    | .lobby =>
      if !r.members.all Member.ready then (r, .error .notAllReady)
      else
        let content := (r.members.head?.map Member.content).join
        if content.isNone || r.members.any fun member => member.content ≠ content then (r, .error .contentMismatch)
        else
          let (game, state) := r.seatMembers (.new r.settings (o.history r.calls) now)
          let r := { r with calls := r.calls + 1, state, content }
          let first : Stream := { nextTurn := game.nextTurn, nextEvent := 1, sealedThrough := 0, backlog := [] }
          let opened := game.turnStart r.id r.settings r.rules first none
          let sharedWorld := r.snapshots.isSome
          let r := r.forMembers (startMember o opened sharedWorld)
          let r := r.withGame game
          let r := if sharedWorld && r.members.length > 1 then r.offerWorlds o now else r
          (r.openLog o game.history, .ok ())

end Room

end Tpf3Mp.Server
