import Candlewick.Proofs.StableSort
import Candlewick.Sequencer.Basic
import Mathlib.Order.Compare

/-! # Replay order

Replay compares candles by one comparison after the other, so it is a comparison itself
(`replay_transCmp`), and to come strictly earlier in replay is a strict weak order. Candles that
replay does not tell apart are of one pair (`pair_eq_of_tied`). -/

namespace Candlewick
open Std

instance Instant.transCmp_compare : TransCmp Instant.compare :=
  inferInstanceAs (TransCmp (compareLex (compareOn Instant.seconds) (compareOn Instant.nanos)))

theorem Instant.upTo_iff {a b : Instant} : a.upTo b = true ↔ (a.compare b).isLE = true := by
  unfold upTo
  rw [decide_eq_true_iff]
  exact Ordering.ne_gt_iff_isLE

theorem Instant.upTo_trans {a b c : Instant} (hab : a.upTo b = true) (hbc : b.upTo c = true) :
    a.upTo c = true := by
  rw [upTo_iff] at hab hbc ⊢
  exact TransCmp.isLE_trans hab hbc

theorem Instant.eq_of_compare {a b : Instant} (h : a.compare b = .eq) : a = b := by
  obtain ⟨hseconds, hnanos⟩ := Ordering.then_eq_eq.1 h
  cases a
  cases b
  congr
  · exact LawfulEqCmp.eq_of_compare hseconds
  · exact LawfulEqCmp.eq_of_compare hnanos

theorem Instant.before_of_upTo {a b : Instant} (h : a.upTo b = true) (hne : a ≠ b) :
    a.before b = true := by
  rw [upTo_iff] at h
  refine decide_eq_true ?_
  cases hab : a.compare b with
  | lt => rfl
  | eq => exact absurd (eq_of_compare hab) hne
  | gt => rw [hab] at h; cases h

theorem Instant.before_trans {a b c : Instant} (hab : a.before b = true)
    (hbc : b.before c = true) : a.before c = true := by
  unfold before at hab hbc ⊢
  rw [decide_eq_true_iff] at hab hbc ⊢
  exact TransCmp.lt_trans hab hbc

theorem Instant.ne_of_before {a b : Instant} (h : a.before b = true) : a ≠ b := by
  rintro rfl
  have hself : a.compare a = .eq := ReflCmp.compare_self
  rw [before, hself] at h
  cases h

namespace Candle
variable {α : Type}

instance replay_transCmp : TransCmp (replay (α := α)) :=
  letI : Ord Instant := ⟨Instant.compare⟩
  haveI : TransOrd Instant := Instant.transCmp_compare
  inferInstanceAs (TransCmp (compareLex (compareOn Candle.time)
    (compareLex (compareOn Candle.updated) (compareOn Candle.pair))))

theorem precedes_iff {a b : Candle α} : Sequenced.precedes a b = true ↔ a.replay b = .lt :=
  decide_eq_true_iff

theorem upTo_eq_notAfter :
    upTo (α := α) = StableSort.notAfter (Sequenced.precedes (τ := Candle α)) := by
  funext a b
  have hgt : a.replay b = .gt ↔ b.replay a = .lt := OrientedCmp.gt_iff_lt
  simp only [upTo, StableSort.notAfter, Sequenced.precedes, precedes, hgt, ne_eq, decide_not]

instance precedes_strictWeak :
    IsStrictWeakOrder (Candle α) fun a b => Sequenced.precedes a b = true where
  irrefl a h := by
    have hself : a.replay a = .eq := ReflCmp.compare_self
    rw [precedes_iff, hself] at h
    cases h
  trans a b c hab hbc := by
    rw [precedes_iff] at hab hbc ⊢
    exact TransCmp.lt_trans hab hbc
  incomp_trans a b c hab hbc := by
    simp only [precedes_iff] at hab hbc ⊢
    have heq : ∀ {x y : Candle α}, ¬ x.replay y = .lt ∧ ¬ y.replay x = .lt → x.replay y = .eq := by
      rintro x y ⟨hxy, hyx⟩
      rw [← OrientedCmp.gt_iff_lt] at hyx
      cases h : x.replay y <;> simp_all
    have hac := TransCmp.eq_trans (heq hab) (heq hbc)
    have hca := OrientedCmp.eq_symm hac
    exact ⟨by simp [hac], by simp [hca]⟩

theorem pair_eq_of_tied {a b : Candle α} (h : StableSort.tied upTo a b = true) :
    a.pair = b.pair := by
  obtain ⟨hab, hba⟩ := StableSort.tied_iff.1 h
  have hab : a.replay b ≠ .gt := of_decide_eq_true hab
  have hba : b.replay a ≠ .gt := of_decide_eq_true hba
  have heq : a.replay b = .eq := by
    rw [ne_eq, OrientedCmp.gt_iff_lt] at hba
    cases hr : a.replay b <;> simp_all
  have hpair : Ord.compare a.pair b.pair = .eq := by
    simp only [replay, Ordering.then_eq_eq] at heq
    exact heq.2.2
  exact LawfulEqCmp.eq_of_compare hpair

theorem time_upTo {a b : Candle α} (h : a.upTo b = true) : a.time.upTo b.time = true := by
  have hreplay : a.replay b ≠ .gt := of_decide_eq_true h
  refine decide_eq_true fun hgt => hreplay ?_
  unfold replay
  rw [hgt]
  rfl

theorem upTo_trans (a b c : Candle α) (hab : upTo a b = true) (hbc : upTo b c = true) :
    upTo a c = true := by
  rw [upTo_eq_notAfter] at hab hbc ⊢
  exact StableSort.notAfter_trans a b c hab hbc

theorem upTo_total (a b : Candle α) : (upTo a b || upTo b a) = true := by
  rw [upTo_eq_notAfter]
  exact StableSort.notAfter_total a b

theorem filter_sort (cs : List (Candle α)) (p : Candle α → Bool) :
    (sort cs).filter p = sort (cs.filter p) :=
  StableSort.filter_mergeSort upTo_trans upTo_total cs p

/-- The candles of the bars up to an instant come first in replay. -/
theorem sort_eq_append (cs : List (Candle α)) (t : Instant) :
    sort cs = sort (cs.filter (·.time.upTo t)) ++ sort (cs.filter (!·.time.upTo t)) := by
  have hfirst : (sort cs).Pairwise fun a b => b.time.upTo t = true → a.time.upTo t = true :=
    (List.pairwise_mergeSort upTo_trans upTo_total cs).imp fun hab hb =>
      Instant.upTo_trans (time_upTo hab) hb
  rw [← filter_sort, ← filter_sort]
  exact (StableSort.filter_append_filter_not hfirst).symm

end Candle
end Candlewick
