import Tpf3Mp.Server.RoomPace
import Tpf3Mp.Server.SaveRuns

/-!
Who may fetch a snapshot: a connection that holds a seat, and that was sent the world since it took
that seat. The room remembers only the snapshot it offered last; over its whole run that is enough.
-/

namespace Tpf3Mp.Server
open Codec Proto Data Relation List

/-- A connection takes a player's seat, or is sent the start of a stream from a snapshot. -/
inductive Mark where
  | took (player : PlayerId) (link : UInt64)
  | offered (player : PlayerId) (link : UInt64) (snapshot : SnapshotId)
  deriving DecidableEq

def Output.mark? : Output → Option Mark
  | .turn player link (.opened start _) => start.world.map fun offer => .offered player link offer.snapshot
  | _ => none

def offersOf (out : List Output) : List Mark := out.filterMap Output.mark?

def Mode.unseating : Mode := { saves := true, reports := true, seats := false }

namespace Room
variable {σ : Type}

def seatMarks (r : Room σ) (o : Oracle) (now : Instant) : RoomCommand → List Mark
  | .join new token password resume content =>
    match (r.join o now new token password resume content).2 with
    | .ok _ => [.took new.player new.link]
    | .error _ => []
  | _ => []

/-- A room with its history of seats and offers, in the order they came. -/
inductive Recalls : Room σ → List Mark → Prop where
  | new (spec : RoomSpec σ) (owner : NewMember) (now : Instant) (disk : Disk) :
      Recalls (.new spec owner now disk) [.took owner.player owner.link]
  | recovered {o : Oracle} {menu : RulesMenu σ} {env : RoomEnv} {verify : Bytes → Bytes → Bool} {file : RoomId}
      {pointer : Option Agreed} {now : Instant} {disk disk' : Disk} {r : Room σ}
      (recovered : recover o menu env verify file pointer now disk = (disk', .ok (some r))) : Recalls r []
  | handled {r : Room σ} {marks : List Mark} (recalls : Recalls r marks) (o : Oracle) (now : Instant)
      (command : RoomCommand) (live : r.closed = false) :
      Recalls (r.handle o now command).1
        (marks ++ r.seatMarks o now command ++ offersOf ((r.handle o now command).1.out.drop r.out.length))
  | saved {r : Room σ} {marks : List Mark} (recalls : Recalls r marks) (o : Oracle) (now : Instant)
      (live : r.closed = false) :
      Recalls (r.tickSaves o now) (marks ++ offersOf ((r.tickSaves o now).out.drop r.out.length))
  | sealed {r : Room σ} {marks : List Mark} (recalls : Recalls r marks) (o : Oracle) (now : Instant)
      (live : r.closed = false) :
      Recalls (r.tickSeal o now) (marks ++ offersOf ((r.tickSeal o now).out.drop r.out.length))
  | compacted {r : Room σ} {marks : List Mark} (recalls : Recalls r marks) (done : Rewrite) (writes : Nat → Write)
      (renamed : Bool) (live : r.closed = false) : Recalls (r.finishCompaction done writes renamed) marks

end Room

def Member.Granted (marks : List Mark) (member : Member) : Prop :=
  ∀ link, member.link = some link → ∃ before since, marks = before ++ .took member.player link :: since ∧
    (∀ other, .took member.player other ∉ since) ∧
    ∀ snapshot, member.offered = some snapshot → .offered member.player link snapshot ∈ since

section Granted
variable {marks more : List Mark} {member member' : Member}

theorem took_offersOf (player : PlayerId) (link : UInt64) (out : List Output) : .took player link ∉ offersOf out := by
  intro among
  obtain ⟨output, _, marked⟩ := mem_filterMap.mp among
  unfold Output.mark? at marked
  split at marked
  · obtain ⟨_, _, impossible⟩ := Option.map_eq_some_iff.mp marked
    cases impossible
  · cases marked

theorem Member.Granted.later (granted : member.Granted marks) (silent : ∀ other, .took member.player other ∉ more) :
    member.Granted (marks ++ more) := by
  intro link linked
  obtain ⟨before, since, rfl, last, offers⟩ := granted link linked
  refine ⟨before, since ++ more, by rw [append_assoc, cons_append], fun other among => ?_, fun snapshot held => ?_⟩
  · rcases mem_append.mp among with early | late
    · exact last other early
    · exact silent other late
  · exact mem_append_left _ (offers snapshot held)

theorem Member.Granted.same (granted : member.Granted marks) (player : member'.player = member.player)
    (link : ∀ link, member'.link = some link → member.link = some link)
    (offered : ∀ snapshot, member'.offered = some snapshot → member.offered = some snapshot) :
    member'.Granted marks := by
  intro other linked
  obtain ⟨before, since, same, last, offers⟩ := granted other (link other linked)
  rw [player]
  exact ⟨before, since, same, last, fun snapshot held => offers snapshot (offered snapshot held)⟩

theorem Member.Granted.took {link : UInt64} (marks : List Mark) (linked : member.link = some link)
    (fresh : member.offered = none) : member.Granted (marks ++ [.took member.player link]) := by
  intro other same
  cases linked.symm.trans same
  refine ⟨marks, [], rfl, fun _ => not_mem_nil, fun snapshot held => ?_⟩
  cases fresh.symm.trans held

end Granted

namespace Room
variable {σ : Type}

def Granted (marks : List Mark) (r : Room σ) : Prop := ∀ member ∈ r.members, member.Granted marks

/-- The room sent more, and no seat remembers an offer that was not sent. -/
def Offering (r r' : Room σ) : Prop :=
  ∃ sent, r'.out = r.out ++ sent ∧ ∀ marks, r.Granted marks → r'.Granted (marks ++ offersOf sent)

section Lemmas
variable {r r' : Room σ} {o : Oracle} {mode : Mode}

theorem Offering.same (out : r'.out = r.out) (seats : ∀ member' ∈ r'.members, ∃ member ∈ r.members,
      member'.player = member.player ∧ (∀ link, member'.link = some link → member.link = some link) ∧
        ∀ snapshot, member'.offered = some snapshot → member.offered = some snapshot) : Offering r r' := by
  refine ⟨[], by rw [out, append_nil], fun marks granted member' seated => ?_⟩
  obtain ⟨member, there, player, link, offered⟩ := seats member' seated
  rw [show offersOf [] = [] from rfl, append_nil]
  exact (granted member there).same player link offered

theorem Offering.unchanged (out : r'.out = r.out) (members : r'.members = r.members) : Offering r r' :=
  .same out fun member seated => ⟨member, members ▸ seated, rfl, fun _ linked => linked, fun _ held => held⟩

theorem Offering.refl (r : Room σ) : Offering r r := .unchanged rfl rfl

theorem Offering.trans {r'' : Room σ} (first : Offering r r') (second : Offering r' r'') : Offering r r'' := by
  obtain ⟨sent, out, keeps⟩ := first
  obtain ⟨sent', out', keeps'⟩ := second
  refine ⟨sent ++ sent', by rw [out', out, append_assoc], fun marks granted => ?_⟩
  have both := keeps' _ (keeps marks granted)
  rw [append_assoc] at both
  rw [show offersOf (sent ++ sent') = offersOf sent ++ offersOf sent' from filterMap_append]
  exact both

theorem emit_offering (output : Output) : Offering r (r.emit output) := by
  refine ⟨[output], rfl, fun marks granted member seated => ?_⟩
  exact (granted member seated).later fun other => took_offersOf _ other _

variable {new : NewMember} {now : Instant} {content : Option ContentFingerprint} {marks : List Mark} {index : Nat}
  {member : Member}

theorem setMember_offering {member' : Member} (seat : r.members[index]? = some member)
    (player : member'.player = member.player) (link : ∀ link, member'.link = some link → member.link = some link)
    (offered : ∀ snapshot, member'.offered = some snapshot → member.offered = some snapshot) :
    Offering r (r.setMember index member') := by
  refine .same rfl fun other seated => ?_
  rcases mem_or_eq_of_mem_set seated with old | rfl
  · exact ⟨other, old, rfl, fun _ linked => linked, fun _ held => held⟩
  · exact ⟨member, mem_of_getElem? seat, player, link, offered⟩

theorem served_offering {link : UInt64} {agreed : Agreed} {start : TurnStart}
    {backlog : List Bytes} {streamFrom : Nat} (now : Instant) (offer : start.world = some agreed.offer)
    (seat : r.members[index]? = some member) (linked : member.link = some link) :
    Offering r ((r.emit (.turn member.player link (.opened start backlog))).setMember index
      (givenWorld member now (some agreed.id) streamFrom)) := by
  refine ⟨[.turn member.player link (.opened start backlog)], rfl, fun marks granted other seated => ?_⟩
  have sent : offersOf [.turn member.player link (.opened start backlog)] =
    [.offered member.player link agreed.id] := by
    simp [offersOf, Output.mark?, offer, Agreed.offer]
  rw [sent]
  rcases mem_or_eq_of_mem_set seated with old | rfl
  · exact (granted other old).later fun _ => by simp
  intro link' linked'
  have same : link' = link := by
    have here : member.link = some link' := linked'
    rw [linked] at here
    exact (Option.some.inj here).symm
  subst same
  obtain ⟨before, since, rfl, last, _⟩ := granted member (mem_of_getElem? seat) link' linked
  refine ⟨before, since ++ [.offered member.player link' agreed.id], by simp; rfl, fun other among => ?_, ?_⟩
  · rcases mem_append.mp among with early | late
    · exact last other early
    · cases mem_singleton.mp late
  · intro snapshot held
    cases held
    exact mem_append_right _ (mem_singleton_self _)

theorem demote_seat (game : Game) (timeouts : Timeouts) (now : Instant) (member : Member) :
    (demote game timeouts now member).player = member.player ∧ (demote game timeouts now member).link = member.link ∧
      (demote game timeouts now member).offered = member.offered := by
  unfold demote
  repeat' split
  all_goals exact ⟨rfl, rfl, rfl⟩

theorem Act.offering (act : Act mode r r') (seats : mode.seats = false) : Offering r r' := by
  cases act with
  | noted | timed | judged | kept | ticked => exact .unchanged rfl rfl
  | told | hungUp => exact emit_offering _
  | adjusted seat | progressed _ seat | diverged _ seat | unserved seat | unbegun _ _ _ seat =>
    exact setMember_offering seat rfl (fun _ linked => linked) fun _ held => held
  | unlinked seat => exact setMember_offering seat rfl nofun fun _ held => held
  | demoted now running =>
    refine .same rfl fun member' seated => ?_
    obtain ⟨member, there, rfl⟩ := mem_map.mp seated
    obtain ⟨player, link, offered⟩ := demote_seat _ r.timeouts now member
    exact ⟨member, there, player, fun _ linked => link ▸ linked, fun _ held => offered ▸ held⟩
  | @served game index member link agreed start backlog streamFrom now running current fed seat linked =>
    have offer : start.world = some agreed.offer := by
      obtain ⟨stream, _, same⟩ := Run.bind_ok.mp fed
      cases same
      rfl
    exact served_offering now offer seat linked
  | @begun game index member link start _ _ _ _ _ seat linked =>
    have seat' : (r.emit (.turn member.player link (.opened start []))).members[index]? = some member := seat
    exact (emit_offering _).trans (setMember_offering seat' rfl (fun _ linked => linked) fun _ held => held)
  | returned _ _ _ taken | awaiting _ _ _ taken | resumed _ _ _ _ taken | unresumed _ _ _ _ taken =>
    cases seats.symm.trans taken

theorem publish_offering (frames : List Bytes) : Offering r (r.publish o frames) := by
  obtain ⟨sent, out, _⟩ := (publish_tame frames : Tame r.owner 0 r (r.publish o frames))
  obtain ⟨members, _, _, _, _, _, _, same, cut⟩ := publish_eq frames
  refine ⟨sent, out, fun marks granted member' seated => ?_⟩
  rw [same] at seated
  obtain ⟨index, there⟩ := mem_iff_getElem?.mp seated
  replace there : members[index]? = some member' := there
  have inside : index < r.members.length := by
    rw [cut.length_eq]
    exact (List.getElem?_eq_some_iff.mp there).1
  have cuts := cut.get inside (List.getElem?_eq_some_iff.mp there).1
  have granted' := (granted r.members[index] (getElem_mem inside)).later fun other => took_offersOf _ other sent
  simp only [get_eq_getElem, (List.getElem?_eq_some_iff.mp there).2] at cuts
  rcases cuts with kept | lost
  · rw [kept]
    exact granted'
  · rw [lost]
    exact granted'.same rfl nofun fun _ held => held

theorem closeAll_offering (code : CloseCode) (reason : String) : Offering r (r.closeAll code reason) := by
  obtain ⟨sent, out, _⟩ := (closeAll_tame code reason : Tame r.owner 0 r (r.closeAll code reason))
  obtain ⟨members, _, same, _, silent⟩ := closeAll_silent code reason
  refine ⟨sent, out, fun marks _ member' seated link linked => ?_⟩
  rw [same] at seated
  rw [(silent member' seated).1] at linked
  cases linked

theorem Deed.offering (deed : Deed mode o r r') (seats : mode.seats = false) : Offering r r' := by
  have booked {room : Room σ} (frames : List Bytes) (members : room.members = r.members) (out : room.out = r.out) :
      Offering r (room.publish o frames) := (Offering.unchanged out members).trans (publish_offering frames)
  have closing {room : Room σ} (code : CloseCode) (reason : String) (members : room.members = r.members)
      (out : room.out = r.out) : Offering r (room.closeAll code reason) :=
    (Offering.unchanged out members).trans (closeAll_offering code reason)
  cases deed with
  | act _ act => exact act.offering seats
  | ordered | started | expired => exact .unchanged rfl rfl
  | sat _ _ _ _ _ _ taken | entered _ _ _ _ _ _ taken =>
    cases seats.symm.trans taken
  | @departed index member kicked calls out live seat farewell =>
    have sent : ∃ sent, out = r.out ++ sent := by
      rcases farewell with rfl | ⟨link, rfl⟩
      · exact ⟨[], (append_nil _).symm⟩
      · exact ⟨_, rfl⟩
    obtain ⟨sent, rfl⟩ := sent
    refine ⟨sent, rfl, fun marks granted other stays => ?_⟩
    have there := mem_of_mem_eraseIdx (depart_members _ _ _ ▸ stays)
    exact (granted other there).later fun _ => took_offersOf _ _ _
  | logOpened =>
    obtain ⟨_, _, _, logged⟩ := openLog_eq _
    rw [logged]
    exact .unchanged rfl rfl
  | saved => exact booked _ rfl rfl
  | unsaved => exact closing _ _ rfl rfl
  | sealed => exact booked _ rfl rfl
  | unsealed => exact closing _ _ rfl rfl

theorem Deeds.offering (deeds : Deeds mode o r r') (seats : mode.seats = false) : Offering r r' := by
  induction deeds with
  | refl => exact .refl r
  | tail _ deed ih => exact ih.trans (deed.offering seats)

theorem Acts.offering (acts : Acts .unseating r r') : Offering r r' := by
  induction acts with
  | refl => exact .refl r
  | tail _ act ih => exact ih.trans (act.offering rfl)

/-- A connection took a player's seat, and was sent more. -/
def Seating (new : NewMember) (r r' : Room σ) : Prop :=
  ∃ sent, r'.out = r.out ++ sent ∧
    ∀ marks, r.Granted marks → r'.Granted (marks ++ [.took new.player new.link] ++ offersOf sent)

theorem Seating.trans {r'' : Room σ} (seating : Seating new r r') (offering : Offering r' r'') : Seating new r r'' := by
  obtain ⟨sent, out, keeps⟩ := seating
  obtain ⟨sent', out', keeps'⟩ := offering
  refine ⟨sent ++ sent', by rw [out', out, append_assoc], fun marks granted => ?_⟩
  have both := keeps' _ (keeps marks granted)
  rw [append_assoc] at both
  rw [show offersOf (sent ++ sent') = offersOf sent ++ offersOf sent' from filterMap_append]
  exact both

theorem Seating.of_seats {member' : Member} {sent : List Output}
    (seats : ∀ other ∈ r'.members, other = member' ∨ other ∈ r.members ∧ other.player ≠ new.player)
    (out : r'.out = r.out ++ sent) (player : member'.player = new.player) (linked : member'.link = some new.link)
    (fresh : member'.offered = none) : Seating new r r' := by
  refine ⟨sent, out, fun marks granted other seated => ?_⟩
  rcases seats other seated with rfl | ⟨old, apart⟩
  · rw [← player]
    exact (Member.Granted.took marks linked fresh).later fun _ => took_offersOf _ _ _
  · refine ((granted other old).later fun link among => ?_).later fun _ => took_offersOf _ _ _
    exact apart (Mark.took.inj (mem_singleton.mp among)).1

theorem takeOver_seating (rejoin : Rejoin)
    (distinct : (r.members.map Member.player).Nodup) (seat : r.members[index]? = some member)
    (same : member.player = new.player) : Seating new r (r.takeOver o index member new rejoin) := by
  have others (member' other : Member) (seated : other ∈ r.members.set index member') :
      other = member' ∨ other ∈ r.members ∧ other.player ≠ new.player := by
    rcases mem_setMember seated with rfl | ⟨position, here, there⟩
    · exact .inl rfl
    · refine .inr ⟨mem_of_getElem? there, fun alike => here ?_⟩
      exact player_unique distinct there seat (alike.trans same.symm)
  obtain ⟨replaced, sent, out⟩ : r.replaceLink member new.link = { r with out := (r.replaceLink member new.link).out } ∧
      ∃ sent, (r.replaceLink member new.link).out = r.out ++ sent := by
    unfold replaceLink
    split
    · split
      · exact ⟨rfl, _, rfl⟩
      · exact ⟨rfl, [], (append_nil _).symm⟩
    · exact ⟨rfl, [], (append_nil _).symm⟩
  unfold takeOver
  rw [replaced, out]
  split
  · exact .of_seats (others _) rfl same rfl rfl
  · exact .of_seats (others _) rfl same rfl rfl
  unfold trySend
  dsimp only
  split
  · exact .of_seats (others _) (append_assoc ..) same rfl rfl
  · exact .of_seats (others _) rfl same rfl rfl

theorem takeSeat_seating {view : RoomView}
    (absent : r.position new.player = none) (granted : (r.takeSeat o now new content).2 = .ok view) :
    Seating new r (r.takeSeat o now new content).1 := by
  have others (member' other : Member) (seated : other ∈ r.members ++ [member']) :
      other = member' ∨ other ∈ r.members ∧ other.player ≠ new.player := by
    rcases mem_append.mp seated with old | new
    · exact .inr ⟨old, position_none absent other old⟩
    · exact .inl (mem_singleton.mp new)
  have nothing : r.out = r.out ++ [] := (append_nil _).symm
  unfold takeSeat at granted ⊢
  dsimp only at granted ⊢
  split at granted
  · next game running =>
    split at granted
    · cases granted
    rename_i provided
    split at granted
    · cases granted
    rename_i space
    split at granted
    · cases granted
    rename_i matched
    rw [if_neg provided, if_neg space, if_neg matched]
    let member' : Member := { Member.new new now with ready := true, content, needs := .world }
    have seated : Seating new r { r.append game (.playerJoined new.player new.name new.platform) with
        members := r.members ++ [member'] } := .of_seats (others _) nothing rfl rfl rfl
    exact seated.trans (Acts.offering (offerWorlds_acts now))
  · next lobby =>
    split at granted
    · cases granted
    · next space =>
      rw [if_neg space]
      exact .of_seats (others _) nothing rfl rfl rfl

theorem admit_seating {resume : Option Resume} {view : RoomView} (distinct : (r.members.map Member.player).Nodup)
    (granted : (r.admitMember o now new resume content).2 = .ok view) :
    Seating new r (r.admitMember o now new resume content).1 := by
  unfold admitMember at granted ⊢
  split at granted
  · next absent => exact takeSeat_seating absent granted
  rename_i index found
  obtain ⟨member, seat, same⟩ := position_seat found
  rw [seat] at granted ⊢
  dsimp only at granted ⊢
  split at granted
  · cases granted
  · next rejoin joined =>
    exact (takeOver_seating rejoin distinct seat same).trans (Acts.offering (offerWorlds_acts now))

theorem takeSeat_refused {error : RequestError}
    (refused : (r.takeSeat o now new content).2 = .error error) : (r.takeSeat o now new content).1 = r := by
  generalize same : r.takeSeat o now new content = result at refused ⊢
  unfold takeSeat at same
  dsimp only at same
  split at same
  · split at same
    · rw [← same]
    split at same
    · rw [← same]
    split at same
    · rw [← same]
    · rw [← same] at refused
      cases refused
  · split at same
    · rw [← same]
    · rw [← same] at refused
      cases refused

theorem admit_refused {resume : Option Resume}
    {error : RequestError} (refused : (r.admitMember o now new resume content).2 = .error error) :
    (r.admitMember o now new resume content).1 = r := by
  generalize same : r.admitMember o now new resume content = result at refused ⊢
  unfold admitMember at same
  split at same
  · rw [← same] at refused ⊢
    exact takeSeat_refused refused
  split at same
  · rw [← same]
  split at same
  · rw [← same]
  · rw [← same] at refused
    cases refused

/-- A join that is granted takes a seat, and one that is refused changes none. -/
def Answers {ν : Type} (new : NewMember) (r : Room σ) : Room σ × Except RequestError ν → Prop
  | (r', .ok _) => Seating new r r'
  | (r', .error _) => Offering r r'

theorem admit_answers (now : Instant) (new : NewMember) (resume : Option Resume) (content : Option ContentFingerprint)
    {room : Room σ} (distinct : (r.members.map Member.player).Nodup) (out : room.out = r.out)
    (members : room.members = r.members) : Answers new r (room.admitMember o now new resume content) := by
  generalize same : room.admitMember o now new resume content = answer
  obtain ⟨room', result⟩ := answer
  cases result with
  | ok view =>
    have seating := admit_seating (members ▸ distinct) (congrArg Prod.snd same)
    rw [same] at seating
    obtain ⟨sent, more, keeps⟩ := seating
    refine ⟨sent, out ▸ more, fun marks granted => keeps marks fun member seated => ?_⟩
    exact granted member (members ▸ seated)
  | error error =>
    have unchanged := admit_refused (congrArg Prod.snd same)
    rw [same] at unchanged
    cases unchanged
    exact .unchanged out members

theorem join_answers (now : Instant) (new : NewMember) (token : FixedBytes 32) (password : Option (Text 64))
    (resume : Option Resume) (content : Option ContentFingerprint) (distinct : (r.members.map Member.player).Nodup) :
    Answers new r (r.join o now new token password resume content) := by
  unfold join
  split
  · exact .refl r
  dsimp only
  split
  · split
    · exact admit_answers now new resume content distinct rfl rfl
    · split
      · exact admit_answers now new resume content distinct rfl rfl
      · exact .unchanged rfl rfl
  · split
    · exact .refl r
    · exact .unchanged rfl rfl
  · exact .refl r

theorem Recalls.begun (recalls : Recalls r marks) : ∃ r₀ first before, Begins r₀ first before ∧ Runs r₀ r := by
  induction recalls with
  | new spec owner now disk => exact ⟨_, _, _, .new spec owner now disk, .refl⟩
  | recovered recovered => exact ⟨_, _, _, .recovered recovered, .refl⟩
  | handled _ o now command live ih =>
    obtain ⟨_, _, _, begins, runs⟩ := ih
    exact ⟨_, _, _, begins, runs.tail (.handled o now command live)⟩
  | saved _ o now live ih =>
    obtain ⟨_, _, _, begins, runs⟩ := ih
    exact ⟨_, _, _, begins, runs.tail (.saved o now live)⟩
  | sealed _ o now live ih =>
    obtain ⟨_, _, _, begins, runs⟩ := ih
    exact ⟨_, _, _, begins, runs.tail (.sealed o now live)⟩
  | compacted _ done writes renamed live ih =>
    obtain ⟨_, _, _, begins, runs⟩ := ih
    exact ⟨_, _, _, begins, runs.tail (.compacted done writes renamed live)⟩

theorem Runs.recalls {r₀ : Room σ} {first : Nat} {before : List Bytes} (begins : Begins r₀ first before)
    (runs : Runs r₀ r) : ∃ marks, Recalls r marks := by
  induction runs with
  | refl =>
    cases begins with
    | new spec owner now disk => exact ⟨_, .new spec owner now disk⟩
    | recovered recovered => exact ⟨_, .recovered recovered⟩
  | tail _ step ih =>
    obtain ⟨marks, recalls⟩ := ih
    cases step with
    | handled o now command live => exact ⟨_, recalls.handled o now command live⟩
    | saved o now live => exact ⟨_, recalls.saved o now live⟩
    | sealed o now live => exact ⟨_, recalls.sealed o now live⟩
    | compacted done writes renamed live => exact ⟨_, recalls.compacted done writes renamed live⟩

theorem Offering.granted (offering : Offering r r') (granted : r.Granted marks) :
    r'.Granted (marks ++ offersOf (r'.out.drop r.out.length)) := by
  obtain ⟨sent, out, keeps⟩ := offering
  rw [out, drop_left]
  exact keeps marks granted

theorem handle_granted (now : Instant) (command : RoomCommand) (live : r.closed = false)
    (distinct : (r.members.map Member.player).Nodup) (granted : r.Granted marks) : (r.handle o now command).1.Granted
      (marks ++ r.seatMarks o now command ++ offersOf ((r.handle o now command).1.out.drop r.out.length)) := by
  have others (quiet : r.seatMarks o now command = []) (deeds : Deeds .unseating o r (r.handle o now command).1) :
      (r.handle o now command).1.Granted
        (marks ++ r.seatMarks o now command ++ offersOf ((r.handle o now command).1.out.drop r.out.length)) := by
    rw [quiet, append_nil]
    exact (deeds.offering rfl).granted granted
  cases command with
  | join new token password resume content =>
    have joins := join_answers (o := o) now new token password resume content distinct
    unfold handle seatMarks
    dsimp only
    generalize r.join o now new token password resume content = joined at joins
    obtain ⟨room, result⟩ := joined
    cases result with
    | ok view =>
      obtain ⟨sent, out, keeps⟩ := Seating.trans joins (Acts.offering (broadcastView_acts))
      rw [out, drop_left]
      exact keeps marks granted
    | error error =>
      rw [append_nil]
      exact Offering.granted joins granted
  | _ => exact others rfl (handle_deeds now _ live (.inl rfl) (.inl rfl) (.inl rfl) (.inr trivial))

theorem Recalls.granted (recalls : Recalls r marks) : r.Granted marks := by
  induction recalls with
  | new spec owner now disk =>
    intro member seated
    cases mem_singleton.mp seated
    exact Member.Granted.took [] rfl rfl
  | recovered recovered =>
    obtain ⟨start, choice, replay, reader, cut, log, frame, log', _, _, _, _, _, rfl⟩ := recover_ok recovered
    intro member seated link linked
    obtain ⟨seat, _, rfl⟩ := mem_map.mp seated
    cases linked
  | handled recalls o now command live ih =>
    obtain ⟨_, _, _, begins, runs⟩ := recalls.begun
    exact handle_granted now command live (begins.streams.runs runs).delivered.players ih
  | saved _ o now live ih =>
    exact (Deeds.offering (tickSaves_deeds rfl rfl now live : Deeds .unseating o _ _) rfl).granted ih
  | sealed _ o now live ih => exact (Deeds.offering (tickSeal_deeds now : Deeds .unseating o _ _) rfl).granted ih
  | @compacted r marks _ done writes renamed live ih =>
    obtain ⟨disk, log, compaction, compactAt, same⟩ := r.finishCompaction_eq done writes renamed
    rw [same]
    exact ih

/-- A connection may fetch a snapshot only if it took the player's seat, nobody has taken that seat since,
and since then it was sent the start of a stream from that very snapshot; and what it gets is the
snapshot of that name which the room keeps, the newest or the one before. -/
theorem fetchable_was_offered {marks : List Mark} {player : PlayerId} {link : UInt64} {snapshot : SnapshotId}
    {manifest : Manifest} (recalls : Recalls r marks) (found : r.fetchable player link snapshot = some manifest) :
    (∃ before between after,
      marks = before ++ .took player link :: between ++ .offered player link snapshot :: after ∧
      ∀ other, .took player other ∉ between ++ after) ∧
    ∃ game agreed, r.phase = .running game ∧ (game.saves.current = some agreed ∨ game.saves.previous = some agreed) ∧
      agreed.id = snapshot ∧ agreed.manifest = manifest := by
  obtain ⟨index, linked, rest⟩ := Option.bind_eq_some_iff.mp found
  obtain ⟨member, seat, served⟩ := Option.bind_eq_some_iff.mp rest
  split at served
  · cases served
  rename_i offered
  obtain ⟨rfl, here⟩ := linked_found linked seat
  obtain ⟨before, since, rfl, last, offers⟩ := recalls.granted member (mem_of_getElem? seat) link here
  obtain ⟨between, after, rfl⟩ := append_of_mem (offers snapshot (Decidable.not_not.mp offered))
  refine ⟨⟨before, between, after, by simp, fun other among => last other ?_⟩, ?_⟩
  · rcases mem_append.mp among with early | late
    · exact mem_append_left _ early
    · exact mem_append_right _ (mem_cons_of_mem _ late)
  split at served
  · cases served
  rename_i game running
  obtain ⟨agreed, held, rfl⟩ := Option.map_eq_some_iff.mp served
  refine ⟨game, agreed, running, ?_, Saves.find_id held, rfl⟩
  have kept := mem_of_find?_eq_some held
  simpa [Option.mem_toList] using kept

end Lemmas

theorem fetchable_was_offered_joiner : ∃ (r : Room Unit) (marks : List Mark) (manifest : Manifest), Recalls r marks ∧
    r.fetchable (plainPlayer 2).player 1 plainWorld.snapshot = some manifest ∧
    .offered (plainPlayer 2).player 1 plainWorld.snapshot ∈ marks ∧ manifest.id = plainWorld.snapshot := by
  -- The owner uploads the world it saved, and another player joins the game.
  let later : List RoomCommand :=
    [.uploaded (plainPlayer 1).player plainWorld.snapshot (.ok { id := plainWorld.snapshot, totalSize := 1000 }),
      .join (plainPlayer 2) ⟨replicate 32 0, rfl⟩ none none (some plainContent)]
  let loaded := savingRoom.after 0 (startAlone ++ [.progress (plainPlayer 1).player 1 0])
  let asked := loaded.tickSaves steady (Duration.ofSecs 60)
  let r := savedAlone.after (Duration.ofSecs 62) later
  have loads : Runs savingRoom loaded := after_runs (by decide +kernel)
  have saves : Runs loaded asked := .single (.saved steady _ (by decide +kernel))
  have reports : Runs asked savedAlone := after_runs (by decide +kernel)
  have joins : Runs savedAlone r := after_runs (by decide +kernel)
  obtain ⟨marks, recalls⟩ := Runs.recalls (.new _ (plainPlayer 1) 0 _) (((loads.trans saves).trans reports).trans joins)
  have found : r.fetchable (plainPlayer 2).player 1 plainWorld.snapshot =
      some { id := plainWorld.snapshot, totalSize := 1000 } := by decide +kernel
  obtain ⟨⟨before, between, after, rfl, _⟩, _⟩ := fetchable_was_offered recalls found
  exact ⟨r, _, _, recalls, found, by simp, rfl⟩

end Room

end Tpf3Mp.Server
