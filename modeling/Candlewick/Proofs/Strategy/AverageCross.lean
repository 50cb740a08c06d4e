import Candlewick.Proofs.Strategy.MovingAverage
import Candlewick.Proofs.Table

/-! # What the cross of two averages trades

The strategy stores both averages on every frame it is shown, which never fails
(`AverageCross.indicators_strategy`). On such a frame it asks a broker for what is held of the two
sides of the pair, and places at most one order (`AverageCross.run_trade`): a purchase for all the
quote where the fast average rises above the slow one and nothing is held of the asset, a sale of
all of the asset where it falls below. -/

namespace Candlewick

namespace AverageCross
variable {α σ β : Type} [Amount α]

/-- A frame with both averages stored. -/
def measured (m : AverageCross) (f : Frame α) : Frame α :=
  { f with
    series := (f.series.set (.indicator fastName) (movingAverage f.closes m.fast)).set
      (.indicator slowName) (movingAverage f.closes m.slow) }

/-- The averages can always be stored. -/
theorem indicators_strategy (m : AverageCross) (state : σ) (f : Frame α) :
    m.strategy.indicators state f = ((m.measured f, none), state) := by
  have hsize : f.closes.length = f.size := by simp [Frame.closes, Frame.column, Frame.size]
  have hfast : allBlank fastName = false := by decide +kernel
  have hslow : allBlank slowName = false := by decide +kernel
  simp [strategy, Frame.store, Frame.setIndicator, length_movingAverage, hsize, hfast, hslow,
    Frame.size, measured]

/-- The last two values of both averages, if these are defined and finite. -/
def averages? (f : Frame α) : Option ((α × α) × (α × α)) :=
  match (f.indicator? fastName).bind lastTwo?, (f.indicator? slowName).bind lastTwo? with
  | some fast, some slow => some (fast, slow)
  | _, _ => none

/-- The order that is due on a frame, given what a broker says of what is held. -/
def due? (f : Frame α) (held : Except (BrokerError α) (Position α)) : Option (Ticket α) :=
  match averages? f, held with
  | some (fast, slow), .ok held => ticket? f.pair fast slow held
  | _, _ => none

/-- Trading places the order that is due, and remembers nothing. -/
theorem run_trade [Broker β α] (f : Frame α) (state : σ) (b : β) : (trade f state).run b =
    (state, match due? f (Broker.position b f.pair) with
      | some t => (Broker.place b t).2
      | none => b) := by
  unfold trade due? averages?
  cases (f.indicator? fastName).bind lastTwo? with
  | none => rfl
  | some fast =>
    cases (f.indicator? slowName).bind lastTwo? with
    | none => rfl
    | some slow =>
      simp only [Plan.run, Broker.answer]
      cases Broker.position b f.pair with
      | error e => rfl
      | ok held =>
        dsimp only
        cases ticket? f.pair fast slow held <;> rfl

/-! ### Crosses -/

/-- The fast average was not above the slow one at the last bar but one, and is above it now. -/
def Rises (f : Frame Rat) : Prop :=
  ∃ a ∈ averages? f, a.1.1 ≤ a.2.1 ∧ a.2.2 < a.1.2

instance (f : Frame Rat) : Decidable (Rises f) :=
  inferInstanceAs (Decidable (∃ a ∈ averages? f, a.1.1 ≤ a.2.1 ∧ a.2.2 < a.1.2))

variable {f : Frame Rat} {held : Position Rat} {t : Ticket Rat}

theorem due?_of_rises (h : Rises f) (hheld : held.asset ≤ 0) :
    due? f (.ok held) = some (.marketQuote .buy f.pair held.quote) := by
  obtain ⟨⟨fast, slow⟩, hf, hbefore, hnow⟩ := h
  simp [due?, Option.mem_def.1 hf, ticket?, hbefore, hnow, hheld]

/-- What is bought is paid with all the quote while nothing is held of the asset, and what is sold
is all that is held. -/
theorem due?_cases (h : due? f (.ok held) = some t) :
    held.asset ≤ 0 ∧ t = .marketQuote .buy f.pair held.quote ∨
      0 < held.asset ∧ t = .market .sell f.pair held.asset := by
  unfold due? at h
  split at h
  next fast slow _ _ heq =>
    cases heq
    simp only [ticket?, Amount.le_rat, Amount.lt_rat, Amount.zero_rat, Bool.and_eq_true,
      decide_eq_true_eq] at h
    split at h
    next hrises => exact .inl ⟨hrises.2, (Option.some.inj h).symm⟩
    next =>
      split at h
      next hfalls => exact .inr ⟨hfalls.2, (Option.some.inj h).symm⟩
      next => cases h
  next => cases h

end AverageCross

end Candlewick
