import Tpf3Mp.Server.RoomRun

/-!
Which members pace a room over which connection. Only a member's own report of its progress has the
room follow it, and a stream the room opens to a member ends that until the next report.
-/

namespace Tpf3Mp.Server
open Codec Proto Data Relation List

def Mode.unreporting : Mode := { saves := true, reports := false }

def Output.Opens (player : PlayerId) (link : UInt64) : Output → Prop
  | .turn player' link' (.opened _ _) => player' = player ∧ link' = link
  | _ => False

structure Member.Follows (member : Member) (player : PlayerId) (link : UInt64) (step : Nat) : Prop where
  player : member.player = player
  linked : member.link = some link
  streaming : member.streaming = true
  pace : member.pace = .following step

namespace Room
variable {σ : Type} {r r' : Room σ} {o : Oracle} {mode : Mode} {player : PlayerId} {link : UInt64}

def Follows (r : Room σ) (player : PlayerId) (link : UInt64) (step : Nat) : Prop :=
  ∃ member ∈ r.members, member.Follows player link step

/-- The room sent more, and whomever it still follows it opened no stream to. -/
def Tame (player : PlayerId) (link : UInt64) (r r' : Room σ) : Prop :=
  ∃ more, r'.out = r.out ++ more ∧ ∀ step, r'.Follows player link step →
    r.Follows player link step ∧ ∀ output ∈ more, ¬ output.Opens player link

theorem Tame.refl (r : Room σ) : Tame player link r r := ⟨[], (append_nil _).symm, fun _ follows => ⟨follows, by simp⟩⟩

theorem Tame.trans {a b c : Room σ} (first : Tame player link a b) (second : Tame player link b c) :
    Tame player link a c := by
  obtain ⟨more, out, kept⟩ := first
  obtain ⟨more', out', kept'⟩ := second
  refine ⟨more ++ more', by rw [out', out, append_assoc], fun step follows => ?_⟩
  obtain ⟨follows', plain'⟩ := kept' step follows
  obtain ⟨follows'', plain⟩ := kept step follows'
  refine ⟨follows'', fun output member => ?_⟩
  rcases mem_append.mp member with sooner | later
  · exact plain output sooner
  · exact plain' output later

theorem tame_same (members : r'.members = r.members) (out : r'.out = r.out) : Tame player link r r' := by
  refine ⟨[], by rw [out, append_nil], fun step follows => ⟨?_, by simp⟩⟩
  rw [Follows, members] at follows
  exact follows

theorem emit_tame (output : Output) (plain : ¬ output.Opens player link) : Tame player link r (r.emit output) := by
  refine ⟨[output], rfl, fun step follows => ⟨follows, fun other member => ?_⟩⟩
  rw [mem_singleton.mp member]
  exact plain

theorem tame_members {members : List Member} (out : r'.out = r.out) (changed : r'.members = members)
    (slower : ∀ member ∈ members, ∀ step, member.Follows player link step → r.Follows player link step) :
    Tame player link r r' := by
  refine ⟨[], by rw [out, append_nil], fun step follows => ⟨?_, by simp⟩⟩
  obtain ⟨member, seated, follows⟩ := follows
  exact slower member (changed ▸ seated) step follows

variable {first : Nat} {before : List Bytes} {member : Member}

theorem setMember_tame {index : Nat} {member' : Member} (seat : r.members[index]? = some member)
    (slower : ∀ step, member'.Follows player link step → member.Follows player link step) :
    Tame player link r (r.setMember index member') := by
  refine tame_members rfl rfl fun other seated step follows => ?_
  rcases mem_or_eq_of_mem_set seated with old | rfl
  · exact ⟨other, old, follows⟩
  · exact ⟨member, mem_of_getElem? seat, slower step follows⟩

theorem opened_tame {index : Nat} {member' : Member} {link' : UInt64} {start : TurnStart} {backlog : List Bytes}
    (distinct : (r.members.map Member.player).Nodup) (seat : r.members[index]? = some member)
    (stopped : ∀ step, ¬ member'.Follows player link step) :
    Tame player link r ((r.emit (.turn member.player link' (.opened start backlog))).setMember index member') := by
  refine ⟨_, rfl, fun step follows => ?_⟩
  obtain ⟨other, seated, follows⟩ := follows
  rcases mem_setMember seated with rfl | ⟨position, here, there⟩
  · exact absurd follows (stopped step)
  · refine ⟨⟨other, mem_of_getElem? there, follows⟩, fun output member_ opens => ?_⟩
    rw [mem_singleton.mp member_] at opens
    exact here (player_unique distinct there seat (follows.player.trans opens.1.symm))

theorem demote_follows {game : Game} {timeouts : Timeouts} {now : Instant} {step : Nat}
    (follows : (demote game timeouts now member).Follows player link step) : member.Follows player link step := by
  unfold demote at follows
  split at follows
  · exact follows
  split at follows
  · exact ⟨follows.player, follows.linked, follows.streaming, follows.pace⟩
  repeat' split at follows
  all_goals first
    | exact follows
    | cases follows.pace

theorem Act.tame (act : Act mode r r') (quiet : mode.reports = false) (distinct : (r.members.map Member.player).Nodup) :
    Tame player link r r' := by
  cases act with
  | noted | timed | judged | kept | ticked => exact tame_same rfl rfl
  | told | hungUp => exact emit_tame _ not_false
  | adjusted seat | diverged _ seat =>
    exact setMember_tame seat fun _ follows => ⟨follows.player, follows.linked, follows.streaming, follows.pace⟩
  | unlinked seat | unserved seat | returned _ _ seat =>
    exact setMember_tame seat fun _ follows => nomatch follows.streaming
  | progressed _ _ _ _ reports =>
    cases quiet.symm.trans reports
  | demoted now running =>
    refine tame_members rfl rfl fun member seated step follows => ?_
    obtain ⟨before, there, rfl⟩ := mem_map.mp seated
    exact ⟨before, there, demote_follows follows⟩
  | @served game index member _ _ _ _ _ now running current fed seat linked =>
    refine opened_tame distinct seat fun step follows => ?_
    have pace : (if member.pace = .loading then .loading else .catchingUp none) = Pace.following step := follows.pace
    split at pace <;> cases pace
  | awaiting _ _ seat | unresumed _ _ _ seat | unbegun _ _ _ seat =>
    exact setMember_tame seat fun _ follows => nomatch follows.pace
  | resumed _ _ seat same => exact opened_tame distinct seat fun _ follows => nomatch follows.pace
  | begun _ _ _ _ _ seat => exact opened_tame distinct seat fun _ follows => nomatch follows.pace

theorem dropLink_tame (index : Nat) (slow : Bool) : Tame player link r (r.dropLink index slow) := by
  unfold dropLink
  split
  · exact .refl r
  rename_i member seat
  split
  · exact .refl r
  have cut (room : Room σ) (same : room.members = r.members) :
      Tame player link room (room.setMember index member.unlinked) :=
    setMember_tame (same ▸ seat) fun _ follows => nomatch follows.streaming
  split
  · exact Tame.trans (emit_tame (.closed ..) not_false) (cut _ rfl)
  · exact cut r rfl

theorem sendLinked_tame (index : Nat) {output : PlayerId → UInt64 → Output}
    (plain : ∀ player' link', ¬ (output player' link').Opens player link) :
    Tame player link r (r.sendLinked o index output) := by
  unfold sendLinked
  split
  · exact .refl r
  rename_i member seat
  split
  · exact .refl r
  rename_i link' _
  have sent : Tame player link r (r.trySend o (output member.player link')).2 := by
    unfold trySend
    dsimp only
    split
    · exact (tame_same rfl rfl : Tame player link r { r with calls := r.calls + 1 }).trans (emit_tame _ (plain _ _))
    · exact tame_same rfl rfl
  dsimp only
  split
  · exact sent
  · exact sent.trans (dropLink_tame _ _)

theorem foldl_tame {ι : Type} {act : Room σ → ι → Room σ} (each : ∀ (r : Room σ) item, Tame player link r (act r item))
    (items : List ι) : Tame player link r (items.foldl act r) :=
  Run.foldl_preserves (fun room item tame => Tame.trans tame (each room item)) (.refl r) items

theorem publishFrame_tame (frame : Bytes) : Tame player link r (publishFrame o r frame) := by
  have sends : ∀ (room : Room σ) (index : Nat), Tame player link room
      (if room.members[index]?.any Member.streaming then room.sendTurn o index (.frame frame) else room) := by
    intro room index
    split
    · exact sendLinked_tame index fun _ _ => not_false
    · exact .refl room
  exact (emit_tame _ not_false : Tame player link r (r.emit (.sealed frame))).trans (foldl_tame sends _)

theorem publish_tame (frames : List Bytes) : Tame player link r (r.publish o frames) := by
  unfold publish
  obtain ⟨disk, calls, log, logged⟩ := logFrames_eq frames
  rw [logged]
  dsimp only
  generalize r.compaction.map _ = compaction
  have booked : Tame player link r { r with disk, calls, log, compaction } := tame_same rfl rfl
  apply booked.trans
  have sent : Tame player link { r with disk, calls, log, compaction } (frames.foldl (publishFrame o)
      { r with disk, calls, log, compaction }) := foldl_tame (fun _ frame => publishFrame_tame frame) frames
  apply sent.trans
  obtain ⟨compaction', compactAt, compacted⟩ := startCompaction_eq
  rw [compacted]
  exact tame_same rfl rfl

theorem closeLink_tame (code : CloseCode) (reason : String) (index : Nat) :
    Tame player link r (closeLink code reason r index) := by
  unfold closeLink
  split
  · exact .refl r
  rename_i member seat
  have cut (room : Room σ) (same : room.members = r.members) :
      Tame player link room (room.setMember index { member with link := none, streaming := false }) :=
    setMember_tame (same ▸ seat) fun _ follows => nomatch follows.streaming
  split
  · exact Tame.trans (emit_tame (.closed ..) not_false) (cut _ rfl)
  · exact cut r rfl

theorem closeAll_tame (code : CloseCode) (reason : String) : Tame player link r (r.closeAll code reason) := by
  have closed : Tame player link r (r.forMembers (closeLink code reason)) :=
    foldl_tame (fun _ index => closeLink_tame code reason index) _
  exact closed.trans (tame_same rfl rfl)

theorem Deed.tame (deed : Deed mode o r r') (quiet : mode.reports = false)
    (distinct : (r.members.map Member.player).Nodup) : Tame player link r r' := by
  have entering {room : Room σ} {member : Member} (idle : member.streaming = false) (out : room.out = r.out)
      (members : room.members = r.members ++ [member]) : Tame player link r room := by
    refine tame_members out members fun other seated step follows => ?_
    rcases mem_append.mp seated with old | new
    · exact ⟨other, old, follows⟩
    · rw [mem_singleton.mp new] at follows
      exact absurd follows.streaming (by simp [idle])
  have booked {room : Room σ} (frames : List Bytes) (members : room.members = r.members) (out : room.out = r.out) :
      Tame player link r (room.publish o frames) := (tame_same members out).trans (publish_tame frames)
  have closing {room : Room σ} (code : CloseCode) (reason : String) (members : room.members = r.members)
      (out : room.out = r.out) : Tame player link r (room.closeAll code reason) :=
    (tame_same members out).trans (closeAll_tame code reason)
  cases deed with
  | act _ act => exact act.tame quiet distinct
  | ordered | started => exact tame_same rfl rfl
  | expired => exact tame_same rfl rfl
  | sat new now => exact entering rfl rfl rfl
  | entered new now => exact entering rfl rfl rfl
  | @departed index member kicked calls out live seat farewell =>
    have left : ∀ other ∈ r.members.eraseIdx index, other ∈ r.members := fun _ => mem_of_mem_eraseIdx
    rcases farewell with rfl | ⟨link', rfl⟩
    · exact tame_members rfl (depart_members _ _ _) fun other seated step follows => ⟨other, left other seated, follows⟩
    refine ⟨_, rfl, fun step follows => ?_⟩
    obtain ⟨other, seated, follows⟩ := follows
    refine ⟨⟨other, left other (depart_members _ _ _ ▸ seated), follows⟩, fun output inside => ?_⟩
    rw [mem_singleton.mp inside]
    exact not_false
  | logOpened =>
    obtain ⟨_, _, _, logged⟩ := openLog_eq _
    rw [logged]
    exact tame_same rfl rfl
  | saved => exact booked _ rfl rfl
  | unsaved => exact closing _ _ rfl rfl
  | sealed => exact booked _ rfl rfl
  | unsealed => exact closing _ _ rfl rfl

theorem Deeds.tame (deeds : Deeds mode o r r') (quiet : mode.reports = false)
    (streams : r.Streams first before) : Tame player link r r' := by
  induction deeds with
  | refl => exact .refl _
  | tail deeds deed ih => exact ih.trans (deed.tame quiet (streams.deeds deeds).delivered.players)

theorem handle_tame (now : Instant) {command : RoomCommand}
    (live : r.closed = false) (other : reportOf command = none) (streams : r.Streams first before) :
    Tame player link r (r.handle o now command).1 :=
  Deeds.tame (handle_deeds now command live (.inl rfl) (.inr other) (.inl rfl) (.inl rfl) : Deeds .unreporting o _ _)
    rfl streams

theorem tickSaves_tame (now : Instant) (live : r.closed = false)
    (streams : r.Streams first before) : Tame player link r (r.tickSaves o now) :=
  Deeds.tame (tickSaves_deeds rfl rfl now live : Deeds .unreporting o _ _) rfl streams

theorem tickSeal_tame (now : Instant) (streams : r.Streams first before) : Tame player link r (r.tickSeal o now) :=
  Deeds.tame (tickSeal_deeds now : Deeds .unreporting o _ _) rfl streams

theorem finishCompaction_tame (done : Rewrite) (writes : Nat → Write) (renamed : Bool) :
    Tame player link r (r.finishCompaction done writes renamed) := by
  obtain ⟨disk, log, compaction, compactAt, same⟩ := r.finishCompaction_eq done writes renamed
  rw [same]
  exact tame_same rfl rfl

theorem progress_follows (player : PlayerId) (link : UInt64) (now : Instant) (sender : PlayerId) (link' : UInt64)
    (step : Nat) : ∃ more, (r.progress now sender link' step).out = r.out ++ more ∧
      (∀ output ∈ more, ¬ output.Opens player link) ∧
      ∀ step', (r.progress now sender link' step).Follows player link step' → r.Follows player link step' ∨
        (sender = player ∧ link' = link ∧ step' = step) := by
  have still : ∃ more, r.out = r.out ++ more ∧ (∀ output ∈ more, ¬ output.Opens player link) ∧
      ∀ step', r.Follows player link step' → r.Follows player link step' ∨
        (sender = player ∧ link' = link ∧ step' = step) :=
    ⟨[], (append_nil _).symm, by simp, fun _ follows => .inl follows⟩
  unfold progress
  split
  · exact still
  rename_i game running
  split
  · exact still
  rename_i index member found
  obtain ⟨at_, seat⟩ := seat_found found
  obtain ⟨rfl, linked⟩ := linked_found at_ seat
  split
  · refine ⟨_, rfl, ?_, fun step' follows => .inl ?_⟩
    · intro output inside
      rw [mem_singleton.mp inside]
      exact not_false
    obtain ⟨other, seated, follows⟩ := follows
    rcases mem_or_eq_of_mem_set seated with old | rfl
    · exact ⟨other, old, follows⟩
    · cases follows.streaming
  · refine ⟨[], (append_nil _).symm, by simp, fun step' follows => ?_⟩
    obtain ⟨other, seated, follows⟩ := follows
    rcases mem_or_eq_of_mem_set seated with old | rfl
    · exact .inl ⟨other, old, follows⟩
    have same : link' = link := Option.some.inj (linked.symm.trans follows.linked)
    have pace : member.pace.next step (game.pacer.window game.speed) game.sealedThrough = .following step' :=
      follows.pace
    unfold Pace.next at pace
    split at pace
    · cases pace
      exact .inr ⟨follows.player, same, rfl⟩
    · next previous at_ =>
      cases pace
      rcases Nat.le_total step previous with low | high
      · rw [Nat.max_eq_left low]
        exact .inl ⟨member, mem_of_getElem? seat, follows.player, follows.linked, follows.streaming, at_⟩
      · rw [Nat.max_eq_right high]
        exact .inr ⟨follows.player, same, rfl⟩
    · split at pace
      · cases pace
        exact .inr ⟨follows.player, same, rfl⟩
      · cases pace

end Room
end Tpf3Mp.Server
