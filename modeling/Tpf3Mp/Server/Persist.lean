import Tpf3Mp.Codec.Journal
import Tpf3Mp.Proto.Control

/-!
The logs of running rooms (`tpf3mp-server`, `persist.rs`): what their records hold, how they are
written and compacted, and how they are read back. A room has two file names on its disk, its log's
and that of a compacted log not yet in place.
-/

namespace Tpf3Mp.Server
open Codec Proto

def formatVersion : UInt16 := 5

def maxStartRecord : Nat := 16 * 2 ^ 20

def maxRecord : Nat := turnMaxFrame + 64

def logLimit : Nat := 2 ^ 30

def crcShift (c : UInt32) : UInt32 := if c &&& 1 = 1 then (c >>> 1) ^^^ 0xEDB88320 else c >>> 1

def crcByte (c : UInt32) (b : UInt8) : UInt32 :=
  crcShift (crcShift (crcShift (crcShift (crcShift (crcShift (crcShift (crcShift (c ^^^ b.toUInt32))))))))

/-- What `crc32fast::hash` computes. Nothing but the samples depends on which checksum it is. -/
def crc32 (bytes : Bytes) : UInt32 := ~~~ bytes.foldl crcByte 0xFFFFFFFF

structure Base where
  firstTurn : Nat
  firstEvent : Nat
  sealedBefore : Nat
  afterTurn : Nat
  nextEvent : Nat
  sealedThrough : Nat
  speed : Speed
  histories : List (UInt64 × Nat)
  content : Option ContentFingerprint
  seated : List (PlayerId × Text 32 × Platform)
  banned : List PlayerId
  rules : Bytes
  deriving DecidableEq

structure StartMember where
  player : PlayerId
  name : Text 32
  platform : Platform
  content : Option ContentFingerprint
  deriving DecidableEq

structure StartRecord where
  version : UInt16
  history : UInt64
  id : RoomId
  name : Text 48
  rules : RulesName
  owner : PlayerId
  maxPlayers : UInt8
  settings : RoomSettings
  inviteTag : Bytes
  passwordTag : Option Bytes
  members : List StartMember
  base : Option Base
  deriving DecidableEq

namespace Wire
open Format Proto.Wire

def roomSettings : Format RoomSettings := (u16.pair (u16.pair u32)).iso
  { toFun := fun s => ⟨s.1, s.2.1, s.2.2⟩
    invFun := fun s => (s.stepsPerSecond, s.inputDelayMs, s.checkpointInterval)
    left_inv := fun _ => rfl
    right_inv := fun _ => rfl }

def base : Format Base :=
  ((uint 64).pair ((uint 64).pair ((uint 64).pair ((uint 64).pair ((uint 64).pair ((uint 64).pair
    (speed.pair ((u64.pair (uint 64)).list.pair ((fixedBytes 32).option.pair
      (((fixedBytes 32).pair ((text 32).pair platform)).list.pair
        ((fixedBytes 32).list.pair byte.list))))))))))).iso
  { toFun := fun ⟨firstTurn, firstEvent, sealedBefore, afterTurn, nextEvent, sealedThrough, speed,
        histories, content, seated, banned, rules⟩ =>
      ⟨firstTurn, firstEvent, sealedBefore, afterTurn, nextEvent, sealedThrough, speed,
        histories, content, seated, banned, rules⟩
    invFun := fun b => (b.firstTurn, b.firstEvent, b.sealedBefore, b.afterTurn, b.nextEvent,
      b.sealedThrough, b.speed, b.histories, b.content, b.seated, b.banned, b.rules)
    left_inv := fun _ => rfl
    right_inv := fun _ => rfl }

def startMember : Format StartMember :=
  ((fixedBytes 32).pair ((text 32).pair (platform.pair (fixedBytes 32).option))).iso
  { toFun := fun m => ⟨m.1, m.2.1, m.2.2.1, m.2.2.2⟩
    invFun := fun m => (m.player, m.name, m.platform, m.content)
    left_inv := fun _ => rfl
    right_inv := fun _ => rfl }

def startRecord : Format StartRecord :=
  (u16.pair (u64.pair ((fixedBytes 16).pair ((text 48).pair ((text 32).pair ((fixedBytes 32).pair
    (byte.pair (roomSettings.pair (byte.list.pair (byte.list.option.pair
      (startMember.list.pair base.option))))))))))).iso
  { toFun := fun ⟨version, history, id, name, rules, owner, maxPlayers, settings, inviteTag,
        passwordTag, members, base⟩ =>
      ⟨version, history, id, name, rules, owner, maxPlayers, settings, inviteTag, passwordTag,
        members, base⟩
    invFun := fun s => (s.version, s.history, s.id, s.name, s.rules, s.owner, s.maxPlayers, s.settings,
      s.inviteTag, s.passwordTag, s.members, s.base)
    left_inv := fun _ => rfl
    right_inv := fun _ => rfl }

end Wire

inductive LogName where
  | log
  | compacting
  deriving DecidableEq

structure Disk where
  log : Option Bytes
  compacting : Option Bytes
  deriving DecidableEq

namespace Disk

def file (disk : Disk) : LogName → Option Bytes
  | .log => disk.log
  | .compacting => disk.compacting

def put (disk : Disk) (contents : Option Bytes) : LogName → Disk
  | .log => { disk with log := contents }
  | .compacting => { disk with compacting := contents }

@[simp] theorem file_put (disk : Disk) (contents : Option Bytes) (name : LogName) :
    (disk.put contents name).file name = contents := by
  cases name <;> rfl

theorem file_put_other (disk : Disk) (contents : Option Bytes) {name other : LogName} (apart : other ≠ name) :
    (disk.put contents name).file other = disk.file other := by
  cases name <;> cases other <;> first | rfl | exact absurd rfl apart

@[simp] theorem put_file (disk : Disk) (name : LogName) : disk.put (disk.file name) name = disk := by
  cases name <;> rfl

end Disk

/-- What comes of one write: it is done, or it fails after some of its bytes. -/
inductive Write where
  | done
  | failed (count : Nat)
  deriving DecidableEq

inductive IoError where
  | recordLimit
  | sizeLimit
  | notRead
  | exists
  | missing
  | device
  deriving DecidableEq

structure RoomLog where
  name : LogName
  written : Nat
  replaces : Bool
  deriving DecidableEq

namespace RoomLog

def recordLimit (offset : Nat) : Nat := if offset = 0 then maxStartRecord else maxRecord

def append (log : RoomLog) (payload : Bytes) (write : Write) (disk : Disk) : Disk × Except IoError RoomLog :=
  if payload.length > recordLimit log.written then (disk, .error .recordLimit)
  else
    let size := Journal.header + payload.length
    if log.written + size > logLimit then (disk, .error .sizeLimit)
    else
      let record := Journal.record crc32 payload
      let contents := (disk.file log.name).getD []
      match write with
      | .done => (disk.put (some (contents ++ record)) log.name, .ok { log with written := log.written + size })
      | .failed count => (disk.put (some (contents ++ record.take count)) log.name, .error .device)

def appendAll (log : RoomLog) : List Bytes → (Nat → Write) → Disk → Disk × Except IoError RoomLog
  | [], _, disk => (disk, .ok log)
  | payload :: rest, writes, disk =>
    match log.append payload (writes 0) disk with
    | (disk, .ok log) => log.appendAll rest (fun index => writes (index + 1)) disk
    | (disk, .error error) => (disk, .error error)

def create (start : StartRecord) (write : Write) (synced : Bool) (disk : Disk) : Disk × Except IoError RoomLog :=
  match disk.log with
  | some _ => (disk, .error .exists)
  | none =>
    let log : RoomLog := { name := .log, written := 0, replaces := false }
    match log.append (Wire.startRecord.encode start) write { disk with log := some [] } with
    | (disk, .ok log) => (disk, if synced then .ok log else .error .device)
    | (disk, .error error) => (disk, .error error)

def discard (log : RoomLog) (disk : Disk) : Disk :=
  if log.replaces then disk.put none log.name else disk

def compacted (start : StartRecord) (frames : List Bytes) (writes : Nat → Write) (synced : Bool) (disk : Disk) :
    Disk × Except IoError RoomLog :=
  let log : RoomLog := { name := .compacting, written := 0, replaces := true }
  match log.appendAll (Wire.startRecord.encode start :: frames) writes { disk with compacting := some [] } with
  | (disk, .ok log) => if synced then (disk, .ok log) else (log.discard disk, .error .device)
  | (disk, .error error) => (log.discard disk, .error error)

/-- Renames a compacted log over the room's log, unless the rename fails. -/
def install (log : RoomLog) (renamed : Bool) (disk : Disk) : Disk × Except IoError RoomLog :=
  if log.replaces then
    if renamed then
      ({ log := disk.file log.name, compacting := none }, .ok { log with name := .log, replaces := false })
    else (disk, .error .device)
  else (disk, .ok log)

def delete (log : RoomLog) (disk : Disk) : Disk := disk.put none log.name

end RoomLog

inductive LogError where
  | io (error : IoError)
  | tooLarge (length : Nat)
  | damaged (offset : Nat)
  deriving DecidableEq

structure LogReader where
  name : LogName
  file : Bytes
  offset : Nat
  tornAt : Option Nat
  deriving DecidableEq

namespace LogReader

def torn (r : LogReader) : Except LogError (Option Bytes × LogReader) :=
  if r.offset = 0 then .error (.damaged 0) else .ok (none, { r with tornAt := some r.offset })

def nextRecord (r : LogReader) : Except LogError (Option Bytes × LogReader) :=
  if r.tornAt.isSome ∨ r.offset = r.file.length then .ok (none, r)
  else match Journal.readHeader (r.file.drop r.offset) with
    -- Fewer bytes are left than a header takes.
    | none => r.torn
    | some (length, crc) =>
      if length > RoomLog.recordLimit r.offset then .error (.damaged r.offset)
      else
        let stop := r.offset + (Journal.header + length)
        if stop > r.file.length then r.torn
        else
          let payload := (r.file.drop (r.offset + Journal.header)).take length
          if crc32 payload ≠ crc then
            if stop = r.file.length then r.torn else .error (.damaged r.offset)
          else .ok (some payload, { r with offset := stop })

/-- Reads the remaining records one by one, as `while let Some(record) = next_record()?` does.
Every record takes bytes, so as many rounds as the file has bytes, and one, suffice. -/
def forEach {σ ε : Type} (refused : LogError → ε) (step : σ → Bytes → Except ε σ) :
    Nat → LogReader → σ → Except ε (σ × LogReader)
  | 0, r, s => .ok (s, r)
  | rounds + 1, r, s =>
    match r.nextRecord with
    | .error error => .error (refused error)
    | .ok (none, r) => .ok (s, r)
    | .ok (some payload, r) => do
      let s ← step s payload
      forEach refused step rounds r s

def rounds (r : LogReader) : Nat := r.file.length + 1

def readAll (r : LogReader) : Except LogError (List Bytes × LogReader) :=
  forEach id (fun records payload => .ok (records ++ [payload])) r.rounds r []

def intoLog (r : LogReader) (disk : Disk) : Disk × Except IoError RoomLog :=
  if r.tornAt.isNone ∧ r.offset ≠ r.file.length then (disk, .error .notRead)
  else match disk.file r.name with
    | none => (disk, .error .missing)
    | some contents =>
      let contents := if r.tornAt.isSome then contents.take r.offset else contents
      (disk.put (some contents) r.name, .ok { name := r.name, written := r.offset, replaces := false })

def delete (r : LogReader) (disk : Disk) : Disk := disk.put none r.name

end LogReader

def RoomLog.read (name : LogName) (disk : Disk) : Except LogError LogReader :=
  match disk.file name with
  | none => .error (.io .missing)
  | some file =>
    if file.length > logLimit + (Journal.header + maxStartRecord) then .error (.tooLarge file.length)
    else .ok { name, file, offset := 0, tornAt := none }

end Tpf3Mp.Server
