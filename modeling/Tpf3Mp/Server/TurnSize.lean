import Tpf3Mp.Server.TurnLog

/-!
How long the turns a game seals are on the wire. A turn's events are split by their payload bytes alone,
and each takes up to 84 bytes beside its payload: with few enough events every turn fits its frame, and
with enough of them one does not.
-/

namespace Tpf3Mp
open List

namespace Proto.Wire
open Codec Format

theorem payload_length (bytes : Payload) : (payload.encode bytes).length ≤ bytes.1.length + 3 := by
  have count : (varint bytes.1.length).length ≤ 2 + 1 := varint_length (lt_of_le_of_lt bytes.2 (by decide))
  have size : (payload.encode bytes).length = (varint bytes.1.length).length + bytes.1.length := length_bytes bytes.1
  omega

theorem text_length {max : Nat} (short : max < 128) (value : Text max) :
    ((text max).encode value).length ≤ max + 1 := by
  have bytes : value.1.toByteArray.data.toList.length ≤ max := by
    exact value.2.1
  have count : (varint value.1.toByteArray.data.toList.length).length ≤ 0 + 1 :=
    varint_length (lt_of_le_of_lt bytes short)
  have size := length_bytes value.1.toByteArray.data.toList
  show (byte.list.encode value.1.toByteArray.data.toList).length ≤ max + 1
  omega

theorem enum_length {α : Type} {n : Nat} (variant : Fin n ≃ α) (small : n ≤ 128) (value : α) :
    ((enum variant).encode value).length ≤ 1 := by
  have below : (variant.symm value).1 < 128 ^ (0 + 1) := lt_of_lt_of_le (variant.symm value).2 small
  exact varint_length below

theorem platform_length (value : Platform) : (platform.encode value).length ≤ 2 := by
  have os : (os.encode value.os).length ≤ 1 := enum_length _ (by decide) value.os
  have arch : (arch.encode value.arch).length ≤ 1 := enum_length _ (by decide) value.arch
  show ((Wire.os.pair Wire.arch).encode (value.os, value.arch)).length ≤ 2
  rw [length_pair]
  exact Nat.add_le_add os arch

/-! The fields of an event body, one kind at a time. -/

theorem command_length (player : PlayerId) (clientSeq : UInt64) (bytes : Payload) :
    (eventBody.encode (.command player clientSeq bytes)).length ≤ bytes.1.length + 46 := by
  have sequence : (u64.encode clientSeq).length ≤ 9 + 1 := u64_length (lt_trans clientSeq.toNat_lt (by decide))
  have size := payload_length bytes
  have fields : (eventBody.encode (.command player clientSeq bytes)).length =
      (varint 0).length + (((fixedBytes 32).pair (u64.pair payload)).encode (player, clientSeq, bytes)).length :=
    length_choice (by decide) bodyFields ⟨0, player, clientSeq, bytes⟩
  rw [length_pair, length_pair, fixedBytes_length] at fields
  have tag : (varint 0).length = 1 := rfl
  dsimp only at fields
  omega

theorem playerJoined_length (player : PlayerId) (name : Text 32) (where_ : Platform) :
    (eventBody.encode (.playerJoined player name where_)).length ≤ 68 := by
  have called := text_length (by decide) name
  have runs := platform_length where_
  have fields : (eventBody.encode (.playerJoined player name where_)).length =
      (varint 1).length + (((fixedBytes 32).pair ((text 32).pair platform)).encode (player, name, where_)).length :=
    length_choice (by decide) bodyFields ⟨1, player, name, where_⟩
  rw [length_pair, length_pair, fixedBytes_length] at fields
  have tag : (varint 1).length = 1 := rfl
  dsimp only at fields
  omega

theorem playerLeft_length (player : PlayerId) (kicked : Bool) :
    (eventBody.encode (.playerLeft player kicked)).length = 34 := by
  have fields : (eventBody.encode (.playerLeft player kicked)).length =
      (varint 2).length + (((fixedBytes 32).pair bool).encode (player, kicked)).length :=
    length_choice (by decide) bodyFields ⟨2, player, kicked⟩
  rw [length_pair, fixedBytes_length] at fields
  exact fields

theorem length_event (value : Event) : (event.encode value).length =
      (varint value.seq).length + ((varint value.step).length + (eventBody.encode value.body).length) := by
  show ((varint value.seq ++ (varint value.step ++ eventBody.encode value.body))).length = _
  rw [length_append, length_append]

theorem event_length {value : Event} (seq : value.seq < 2 ^ 56) (step : value.step < 2 ^ 56) :
    (event.encode value).length ≤ Server.payloadSize value + 84 := by
  have first : (varint value.seq).length ≤ 7 + 1 := varint_length seq
  have second : (varint value.step).length ≤ 7 + 1 := varint_length step
  have fields : (eventBody.encode value.body).length ≤ Server.payloadSize value + 68 := by
    unfold Server.payloadSize
    cases value.body with
    | command player clientSeq bytes =>
      have size := command_length player clientSeq bytes
      dsimp only
      omega
    | playerJoined player name platform => exact playerJoined_length player name platform
    | playerLeft player kicked =>
      rw [playerLeft_length]
      exact Nat.le_add_left 34 34
    | save => decide
  rw [length_event]
  omega

theorem length_turn (value : Turn) :
    (turnMessage.encode (.turn value)).length =
      1 + ((varint value.number).length + ((varint value.sealedThrough).length +
      ((speed.encode value.speed).length +
      ((varint value.events.length).length + (value.events.flatMap event.encode).length)))) := by
  have fields : (turnMessage.encode (.turn value)).length = (varint 1).length + (turn.encode value).length :=
    length_choice (by decide) messageFields ⟨1, value⟩
  rw [fields]
  show 1 + (varint value.number ++
    (varint value.sealedThrough ++ (speed.encode value.speed ++ event.list.encode value.events))).length = _
  rw [length_append, length_append, length_append, length_list]

end Proto.Wire

namespace Server
open Codec Proto

def turnEvents : Nat := 6241

/-- The turn, encoded, is within the limit of its frame. -/
def Fits (turn : Turn) : Prop := (Proto.Wire.turnMessage.encode (.turn turn)).length ≤ turnMaxFrame

variable {turn : Turn}

theorem turn_length (number : turn.number < 2 ^ 63) (frontier : turn.sealedThrough < 2 ^ 64)
    (few : turn.events.length ≤ turnEvents) (light : (turn.events.map payloadSize).sum ≤ turnPayloadBudget)
    (counters : ∀ event ∈ turn.events, event.seq < 2 ^ 56 ∧ event.step < 2 ^ 56) : Fits turn := by
  have first : (Format.varint turn.number).length ≤ 8 + 1 := Format.varint_length number
  have second : (Format.varint turn.sealedThrough).length ≤ 9 + 1 :=
    Format.varint_length (lt_trans frontier (by decide))
  have third : (Proto.Wire.speed.encode turn.speed).length ≤ 2 + 1 :=
    Format.varint_length (lt_trans turn.speed.percent.toNat_lt (by decide))
  have count : (Format.varint turn.events.length).length ≤ 1 + 1 :=
    Format.varint_length (lt_of_le_of_lt few (by decide))
  have events := Proto.Wire.event.length_elements_le fun event member =>
    Proto.Wire.event_length (counters event member).1 (counters event member).2
  have room : 1 + (9 + (10 + (3 + (2 + (turnPayloadBudget + 84 * turnEvents))))) ≤ turnMaxFrame := by decide
  rw [Fits, Proto.Wire.length_turn]
  omega

theorem Fits.encodes (fits : Fits turn) :
    ∃ frame, encodeFrame Proto.Wire.turnMessage (.turn turn) turnMaxFrame = .ok frame ∧
      frame.length ≤ frameHeaderLen + turnMaxFrame := by
  have word : (Proto.Wire.turnMessage.encode (.turn turn)).length < 2 ^ 32 := lt_of_le_of_lt fits (by decide)
  refine ⟨_, by rw [encodeFrame, if_neg (not_lt.mpr fits), if_pos word], ?_⟩
  rw [length_append, length_le32]
  exact Nat.add_le_add_left fits 4

theorem encodeFrame_refused (long : ¬ Fits turn) :
    ∃ length, encodeFrame Proto.Wire.turnMessage (.turn turn) turnMaxFrame = .error (.tooLarge length turnMaxFrame) :=
  ⟨_, by rw [encodeFrame, if_pos (not_le.mp long)]⟩

namespace Game

theorem payloadSize_le (event : Event) : payloadSize event ≤ turnPayloadBudget := by
  unfold payloadSize
  split
  · next payload _ => exact le_trans payload.2 (by decide)
  · exact Nat.zero_le _

theorem batches_light {budget : Nat} {batch events : List Event} (counted : (batch.map payloadSize).sum = budget)
    (light : budget ≤ turnPayloadBudget) :
    ∀ other ∈ batches budget batch events, (other.map payloadSize).sum ≤ turnPayloadBudget := by
  induction events generalizing budget batch with
  | nil =>
    intro other member
    rw [batches, mem_singleton] at member
    rw [member, counted]
    exact light
  | cons event events ih =>
    have one := payloadSize_le event
    rw [batches]
    split
    · intro other member
      rcases mem_cons.mp member with rfl | member
      · rw [counted]
        exact light
      · exact ih (by simp) one other member
    · next same =>
      -- An event that is too much starts a batch of its own, where it is not too much.
      have fits : budget + payloadSize event ≤ turnPayloadBudget := by
        by_cases begun : batch = []
        · rw [begun] at counted
          simp only [map_nil, sum_nil] at counted
          omega
        · have below : ¬ budget + payloadSize event > turnPayloadBudget := fun above => same ⟨above, begun⟩
          omega
      exact ih (by simp [counted]) fits

theorem batches_length_le {pending batch : List Event} (member : batch ∈ batches 0 [] pending) :
    batch.length ≤ pending.length := by
  have part := sublist_flatten_of_mem member
  rw [batches_flatten] at part
  exact part.length_le

theorem batches_count (pending : List Event) : (batches 0 [] pending).length ≤ pending.length + 1 := by
  have each : ∀ (budget : Nat) (batch events : List Event), (batches budget batch events).length ≤
    events.length + 1 := by
    intro budget batch events
    induction events generalizing budget batch with
    | nil => exact Nat.le_refl 1
    | cons event events ih =>
      rw [batches]
      split
      · exact Nat.succ_le_succ (ih _ _)
      · exact Nat.le_succ_of_le (ih _ _)
  exact each 0 [] pending

/-- The turns that sealing builds, from the number given on. Only the last one reaches the frontier. -/
def turnsOf (frontier past : Nat) (speed : Speed) : Nat → List (List Event) → List Turn
  | _, [] => []
  | number, events :: rest =>
    { number, sealedThrough := if rest = [] then frontier else past, speed, events } ::
      turnsOf frontier past speed (number + 1) rest

theorem mem_turnsOf {frontier past number : Nat} {speed : Speed} {bs : List (List Event)}
    (among : turn ∈ turnsOf frontier past speed number bs) : turn.events ∈ bs ∧ turn.number < number + bs.length ∧
      (turn.sealedThrough = frontier ∨ turn.sealedThrough = past) := by
  induction bs generalizing number with
  | nil => cases among
  | cons events rest ih =>
    rw [length_cons]
    rcases mem_cons.mp among with rfl | later
    · exact ⟨mem_cons_self, by dsimp only; omega, ite_eq_or_eq ..⟩
    · obtain ⟨listed, counted, through⟩ := ih later
      exact ⟨mem_cons_of_mem _ listed, by omega, through⟩

theorem sealBatches_fits {frontier : Nat} {bs : List (List Event)} {g : Game} :
    (∃ g' frames, sealBatches frontier bs g = (g', .ok frames) ∧
      ∀ frame ∈ frames, frame.length ≤ frameHeaderLen + turnMaxFrame) ↔
      ∀ turn ∈ turnsOf frontier g.sealedThrough g.speed g.nextTurn bs, Fits turn := by
  induction bs generalizing g with
  | nil => exact iff_of_true ⟨g, [], rfl, forall_mem_nil _⟩ (forall_mem_nil _)
  | cons events rest ih =>
    rw [turnsOf, forall_mem_cons, sealBatches]
    dsimp only
    by_cases fits : Fits ⟨g.nextTurn, if rest = [] then frontier else g.sealedThrough, g.speed, events⟩
    · obtain ⟨frame, encoded, short⟩ := fits.encodes
      have later : _ ↔ ∀ turn ∈ turnsOf frontier g.sealedThrough g.speed (g.nextTurn + 1) rest, Fits turn :=
        @ih (g.keep ⟨(events.head?.map Event.seq).getD g.nextEvent,
          if rest = [] then frontier else g.sealedThrough, frame⟩)
      rw [encoded, and_iff_right fits, ← later]
      dsimp only
      split
      · next g' frames sealed =>
        simp [sealed, short]
      · next failed => simp [failed]
    · obtain ⟨length, refused⟩ := encodeFrame_refused fits
      rw [refused]
      exact iff_of_false (by simp) fun all => fits all.1

def departures (count : Nat) : List Event :=
  (range count).map fun index =>
    { seq := index + 1, step := 1, body := .playerLeft ⟨replicate 32 0, length_replicate⟩ false }

def deserted (count : Nat) : Game :=
  { Game.new ⟨10, 200, 100⟩ 0 0 with pending := departures count, nextEvent := count + 1 }

variable {count : Nat}

theorem departures_weightless : ∀ event ∈ departures count, payloadSize event = 0 := by
  intro event member
  obtain ⟨index, _, rfl⟩ := mem_map.mp member
  rfl

theorem deserted_pending (small : count < 2 ^ 56) : ∀ event ∈ (deserted count).pending,
    payloadSize event = 0 ∧ event.seq < 2 ^ 56 ∧ event.step < 2 ^ 56 := by
  intro event member
  obtain ⟨index, inside, rfl⟩ := mem_map.mp member
  have below := mem_range.mp inside
  refine ⟨rfl, ?_, Nat.one_lt_two_pow (by decide)⟩
  dsimp only
  omega

theorem batches_weightless {batch events : List Event} (weightless : ∀ event ∈ events, payloadSize event = 0) :
    batches 0 batch events = [batch ++ events] := by
  induction events generalizing batch with
  | nil => rw [batches, append_nil]
  | cons event events ih =>
    have none := weightless event mem_cons_self
    have light : ¬ (0 + 0 > turnPayloadBudget ∧ batch ≠ []) := fun heavy => absurd heavy.1 (by decide)
    rw [batches, none, if_neg light, ih fun other member => weightless other (mem_cons_of_mem event member),
      append_assoc]
    rfl

theorem departures_length (left : turn.events = departures count) :
    34 * count ≤ (Proto.Wire.turnMessage.encode (.turn turn)).length := by
  have each : ∀ event ∈ departures count, 34 ≤ (Proto.Wire.event.encode event).length := by
    intro event member
    obtain ⟨index, _, rfl⟩ := mem_map.mp member
    rw [Proto.Wire.length_event, Proto.Wire.playerLeft_length]
    omega
  have all := Proto.Wire.event.le_length_elements each
  have size : (departures count).length = count := by rw [departures, length_map, length_range]
  rw [Proto.Wire.length_turn, left]
  omega

theorem sealPending_refused {g : Game} {frontier : Nat} {error : FrameError}
    (weightless : ∀ event ∈ g.pending, payloadSize event = 0)
    (refused : encodeFrame Proto.Wire.turnMessage (.turn ⟨g.nextTurn, frontier, g.speed, g.pending⟩) turnMaxFrame =
      .error error) : (g.sealPending frontier).2 = .error error := by
  unfold sealPending
  rw [batches_weightless weightless, nil_append]
  unfold sealBatches
  dsimp only
  rw [if_pos rfl, refused]

theorem deserted_refused (crowd : turnMaxFrame < 34 * count) :
    ∃ length, ((deserted count).sealPending 10).2 = .error (.tooLarge length turnMaxFrame) := by
  let turn : Turn := ⟨(deserted count).nextTurn, 10, (deserted count).speed, (deserted count).pending⟩
  have left : turn.events = departures count := rfl
  obtain ⟨length, refused⟩ := encodeFrame_refused (not_le.mpr (lt_of_lt_of_le crowd (departures_length left)))
  exact ⟨length, sealPending_refused departures_weightless refused⟩

theorem deserted_counts (count : Nat) : (deserted count).nextTurn = 1 ∧ (deserted count).sealedThrough = 0 :=
  ⟨rfl, rfl⟩

end Game

end Server

end Tpf3Mp
