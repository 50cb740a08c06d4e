import Candlewick.Order.Broker

/-! # Trading plans

A plan is what somebody does with a broker: it asks, looks at the answer, and goes on. The type of
an answer depends on the request. A plan knows nothing of the broker that it runs over, so the same
plan runs over a wallet and over whatever stands in front of one. -/

namespace Candlewick

/-- What one asks of a broker. -/
inductive Request (α : Type) where
  | place (ticket : Ticket α)
  | cancel (id : Int)
  | order (pair : String) (id : Int)
  | position (pair : String)
  | account
deriving Repr, DecidableEq, Inhabited

/-- What answers a request that is not refused. -/
abbrev Request.Answer {α : Type} : Request α → Type
  | place _ => List (Order α)
  | cancel _ => Unit
  | order _ _ => Order α
  | position _ => Position α
  | account => Account α

/-- The answer to a request, or why it is refused. -/
abbrev Request.Outcome {α : Type} (r : Request α) : Type := Except (BrokerError α) r.Answer

/-- Puts a request to a broker. -/
def Broker.answer {α β : Type} [Broker β α] (b : β) : (r : Request α) → r.Outcome × β
  | .place t => Broker.place b t
  | .cancel id => Broker.cancel b id
  | .order pair id => Broker.order b pair id
  | .position pair => (Broker.position b pair, b)
  | .account => (Broker.account b, b)

/-- Requests one after the other, each chosen by the answers before it. -/
inductive Plan (α : Type) (τ : Type) where
  /-- Nothing more to ask. -/
  | done (result : τ)
  /-- Asks, and goes on by the answer. -/
  | ask (request : Request α) (next : request.Outcome → Plan α τ)

namespace Plan
variable {α τ ρ : Type}

/-- Follows a plan by another that depends on its result. -/
def bind (p : Plan α τ) (f : τ → Plan α ρ) : Plan α ρ :=
  match p with
  | done a => f a
  | ask r next => ask r fun x => (next x).bind f

instance : Monad (Plan α) where
  pure := done
  bind := bind

/-- Asks once. -/
def request (r : Request α) : Plan α r.Outcome := ask r done

/-- Runs a plan over a broker. -/
def run {β : Type} [Broker β α] (p : Plan α τ) (b : β) : τ × β :=
  match p with
  | done a => (a, b)
  | ask r next =>
    let (x, b) := Broker.answer b r
    (next x).run b

/-- A plan that follows another runs where the first one ended. -/
theorem run_bind {β : Type} [Broker β α] (p : Plan α τ) (f : τ → Plan α ρ) (b : β) :
    (p.bind f).run b = (f (p.run b).1).run (p.run b).2 := by
  induction p generalizing b with
  | done a => rfl
  | ask r next ih => exact ih _ _

end Plan

end Candlewick
