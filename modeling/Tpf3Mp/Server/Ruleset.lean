import Tpf3Mp.Proto.Turn

/-!
The hook through which a room's canonical rules take part in sequencing (`tpf3mp-server`,
`ruleset.rs`). A server's rules share one type of states.
-/

namespace Tpf3Mp.Server
open Codec Proto

structure Ruleset (σ : Type) where
  validate : σ → PlayerId → Payload → Except UInt16 Unit
  apply : σ → Event → σ
  save : σ → Option Bytes
  restore : σ → Bytes → Except String σ

/-- `AcceptAll`: orders every intent without interpreting it. -/
def acceptAll : Ruleset Unit where
  validate _ _ _ := .ok ()
  apply _ _ := ()
  save _ := some []
  restore _ state := if state.isEmpty then .ok () else .error "accepting every intent keeps no state"

structure RulesChoice (σ : Type) where
  name : RulesName
  ruleset : Ruleset σ
  fresh : σ

/-- Fresh rules take on whatever state the rules save. -/
def RulesChoice.Restores {σ : Type} (choice : RulesChoice σ) : Prop :=
  ∀ {state : σ} {bytes : Bytes}, choice.ruleset.save state = some bytes →
    choice.ruleset.restore choice.fresh bytes = .ok state

/-- Rules over the values of a view go along with these: what is accepted and what happens here is
accepted and happens there, and any state that is saved or restored here is restored there. -/
structure RulesChoice.Views {σ τ : Type} (choice : RulesChoice σ) (view : σ → τ) (seen : RulesChoice τ) : Prop where
  fresh : view choice.fresh = seen.fresh
  apply : ∀ state event, view (choice.ruleset.apply state event) = seen.ruleset.apply (view state) event
  valid : ∀ {state player payload}, choice.ruleset.validate state player payload = .ok () →
    seen.ruleset.validate (view state) player payload = .ok ()
  saved : ∀ {state bytes}, choice.ruleset.save state = some bytes →
    seen.ruleset.restore seen.fresh bytes = .ok (view state)
  restored : ∀ {state bytes}, choice.ruleset.restore choice.fresh bytes = .ok state →
    seen.ruleset.restore seen.fresh bytes = .ok (view state)

theorem RulesChoice.Restores.views {σ : Type} {choice : RulesChoice σ} (restores : choice.Restores) :
    choice.Views id choice :=
  ⟨rfl, fun _ _ => rfl, fun valid => valid, fun saved => restores saved, fun restored => restored⟩

def RulesChoice.blind {σ : Type} (choice : RulesChoice σ) : RulesChoice Unit where
  name := choice.name
  ruleset := { acceptAll with restore := fun _ _ => .ok () }
  fresh := ()

theorem RulesChoice.blind_views {σ : Type} (choice : RulesChoice σ) : choice.Views (fun _ => ()) choice.blind :=
  ⟨rfl, fun _ _ => rfl, fun _ => rfl, fun _ => rfl, fun _ => rfl⟩

abbrev RulesMenu (σ : Type) := List (RulesChoice σ)

def RulesMenu.find {σ : Type} (menu : RulesMenu σ) : Option RulesName → Option (RulesChoice σ)
  | none => menu.head?
  | some name => menu.find? fun choice => choice.name = name

end Tpf3Mp.Server
