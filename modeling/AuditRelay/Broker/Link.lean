import AuditRelay.Event.Basic
import AuditRelay.Fault

/-!
# AuditRelay.Broker.Link — the one connection of a relay

A link holds at most one connection. Before each event the connection is replaced if it is missing,
closed or too old; after a failure it is given up. A delivery runs through stages, each with one
call at most, so that it can be followed call by call and abandoned between two of them.

`Connector` is whatever the calls are made on: nothing is assumed of its answers.
-/

namespace AuditRelay

/-- What a link can ask of a broker in state `σ`. Connections are told apart by numbers. -/
structure Connector (σ : Type) where
  connect : σ → Except Fault Nat × σ
  isClosed : Nat → σ → Bool
  age : Nat → σ → Nat
  publish : Nat → Event → σ → Except Fault Unit × σ
  disconnect : Nat → σ → σ

/-- The connection of a relay. -/
structure Link where
  maxAge : Nat
  held : Option Nat
  deriving DecidableEq, Repr

/-- How far the delivery of an event has come. -/
inductive Delivery where
  | checking
  /-- A connection that may not be used any longer is disconnected. -/
  | releasing (c : Nat)
  | connecting
  | publishing (c : Nat)
  /-- The connection is disconnected after a failure. -/
  | discarding (c : Nat) (f : Fault)
  /-- The event has been published, unless there is a reason why not. -/
  | done (failure : Option Fault)
  deriving DecidableEq, Repr

namespace Delivery

/-- How many stages may still come. -/
def remaining : Delivery → Nat
  | checking => 5
  | releasing _ => 4
  | connecting => 3
  | publishing _ => 2
  | discarding _ _ => 1
  | done _ => 0

/-- The result of a delivery that has come to its end. -/
def result? : Delivery → Option (Except Fault Unit)
  | done none => some (.ok ())
  | done (some f) => some (.error f)
  | _ => none

theorem remaining_ne_zero {d : Delivery} (h : d.result? = none) : d.remaining ≠ 0 := by
  rcases d with _ | _ | _ | _ | _ | _ | _ <;> simp_all [result?, remaining]

end Delivery

namespace Link

variable {σ : Type}

/-- Whether a connection may not be used any longer. -/
def isStale (C : Connector σ) (l : Link) (c : Nat) (s : σ) : Bool :=
  C.isClosed c s || l.maxAge ≤ C.age c s

/-- Takes the delivery of an event one stage further. -/
def step (C : Connector σ) (e : Event) (l : Link) (s : σ) : Delivery → Delivery × Link × σ
  | .checking =>
    match l.held with
    | none => (.connecting, l, s)
    | some c =>
      if l.isStale C c s then (.releasing c, { l with held := none }, s) else (.publishing c, l, s)
  | .releasing c => (.connecting, l, C.disconnect c s)
  | .connecting =>
    match C.connect s with
    | (.error f, s) => (.done (some f), l, s)
    | (.ok c, s) => (.publishing c, { l with held := some c }, s)
  | .publishing c =>
    match C.publish c e s with
    | (.ok (), s) => (.done none, l, s)
    | (.error f, s) => (.discarding c f, { l with held := none }, s)
  | .discarding c f => (.done (some f), l, C.disconnect c s)
  | .done r => (.done r, l, s)

/-- Every stage but the last leads to a later one. -/
theorem remaining_step (C : Connector σ) (e : Event) (l : Link) (s : σ) (d : Delivery)
    (h : d.remaining ≠ 0) : (step C e l s d).1.remaining < d.remaining := by
  cases d <;> simp only [step] <;> (try split) <;> (try split) <;> simp_all [Delivery.remaining]

/-- Takes a delivery to its end. -/
def run (C : Connector σ) (e : Event) (l : Link) (s : σ) (d : Delivery) :
    Except Fault Unit × Link × σ :=
  match h : d.result? with
  | some r => (r, l, s)
  | none =>
    have := remaining_step C e l s d (Delivery.remaining_ne_zero h)
    run C e (step C e l s d).2.1 (step C e l s d).2.2 (step C e l s d).1
termination_by d.remaining

/-- Publishes an event, over a new connection if need be. -/
def publish (C : Connector σ) (l : Link) (e : Event) (s : σ) : Except Fault Unit × Link × σ :=
  l.run C e s .checking

/-- Gives the connection up. -/
def disconnect (C : Connector σ) (l : Link) (s : σ) : Link × σ :=
  match l.held with
  | none => (l, s)
  | some c => ({ l with held := none }, C.disconnect c s)

/-- Whether a connection is held and open. -/
def isConnected (C : Connector σ) (l : Link) (s : σ) : Bool :=
  match l.held with
  | none => false
  | some c => !C.isClosed c s

end Link

end AuditRelay
