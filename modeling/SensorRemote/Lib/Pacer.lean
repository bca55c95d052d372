import SensorRemote.Lib.History
import SensorRemote.Lib.Transition
import Mathlib.Algebra.BigOperators.Group.List.Basic
import Mathlib.Algebra.Order.Group.Defs
import Mathlib.Algebra.Order.Group.Unbundled.Basic
import Mathlib.Order.Lattice

/-!
# A pacer with one slot

A pacer takes one item at a time, reserves for it the time the item costs, and sends it when
it is due or later; it takes the next item only then. However late items are sent, between two
of them passes at least the time that the items strictly between them cost (`paced`): a
reservation never starts before the item before it was sent, so being late earns nothing.
Times are any ordered group.
-/

namespace Transition

variable {α : Type*}

/-- A pacer: when the next item may be due, the item that waits with when it is due and what it
costs, the time, and the items sent with what they cost and when they went. -/
structure Pacer (α : Type*) where
  next : α
  waiting : Option (α × α)
  clock : α
  sent : List (α × α)

/-- What a pacer can do. -/
inductive Pacer.Move (α : Type*) where
  /-- take an item of this cost, reserving at one time and being done at another -/
  | take (now done cost : α)
  /-- send the item that waits at this time -/
  | send (now : α)
  /-- let time pass -/
  | pass (now : α)

variable [AddCommGroup α]

/-- What some items cost together. -/
def Pacer.cost (items : List (α × α)) : α := (items.map Prod.fst).sum

@[simp] theorem Pacer.cost_nil : cost ([] : List (α × α)) = 0 := rfl

@[simp] theorem Pacer.cost_concat (items : List (α × α)) (item : α × α) :
    cost (items ++ [item]) = cost items + item.1 := by
  simp [cost]

variable [LinearOrder α]

variable (α) in
def pacer : LTS (Pacer α) (Pacer.Move α) where
  init p := p.waiting = none ∧ p.sent = []
  step p move p' :=
    match move with
    | .take now done cost => p.waiting = none ∧ p.clock ≤ now ∧ now ≤ done ∧
        p' = ⟨max p.next now + cost, some (max p.next now, cost), done, p.sent⟩
    | .send now => ∃ due cost, p.waiting = some (due, cost) ∧ due ≤ now ∧ p.clock ≤ now ∧
        p' = ⟨p.next, none, now, p.sent ++ [(cost, now)]⟩
    | .pass now => p.clock ≤ now ∧ p' = { p with clock := now }

namespace Pacer

/-- The earliest time a next item can be due, or the one that waits is. -/
def due (p : Pacer α) : α :=
  match p.waiting with
  | none => max p.next p.clock
  | some (due, _) => due

/-- The invariant of a pacer: behind the time an item was sent, the items sent after it fit
before what comes next is due, and those sent between it and another before that other. -/
structure Paced (p : Pacer α) : Prop where
  reserved : ∀ due cost, p.waiting = some (due, cost) → p.next = due + cost
  behind : ∀ before f after, p.sent = before ++ f :: after → f.2 + cost after ≤ p.due
  between : ∀ before f between g after, p.sent = before ++ f :: (between ++ g :: after) →
    f.2 + cost between ≤ g.2

variable {p p' : Pacer α}

variable [IsOrderedAddMonoid α]

theorem Paced.step {move : Move α} (h : p.Paced) (hstep : (pacer α).step p move p') :
    p'.Paced := by
  cases move with
  | take now done cost =>
    obtain ⟨hnone, hclock, -, rfl⟩ := hstep
    refine ⟨?_, ?_, h.between⟩
    · rintro due cost ⟨⟩
      rfl
    · intro before f after hsent
      apply (h.behind before f after hsent).trans
      simp only [Pacer.due, hnone]
      exact max_le_max le_rfl hclock
  | send now =>
    obtain ⟨due, price, hwaiting, hdue, hclock, rfl⟩ := hstep
    have hnext : p.due + price ≤ max p.next now := by
      simp only [Pacer.due, hwaiting, ← h.reserved due price hwaiting]
      exact le_max_left _ _
    refine ⟨by simp, ?_, ?_⟩
    · intro before f after hsent
      rcases split_concat hsent with ⟨rfl, rfl, rfl⟩ | ⟨rest, hold, rfl⟩
      · simp only [cost_nil, add_zero]
        exact le_max_right _ _
      · calc f.2 + cost (rest ++ [(price, now)]) = f.2 + cost rest + price := by
              rw [cost_concat, add_assoc]
          _ ≤ p.due + price := add_le_add_left (h.behind before f rest hold) price
          _ ≤ max p.next now := hnext
    · intro before f between g after hsent
      rcases split_concat hsent with ⟨-, -, hnone⟩ | ⟨rest, hold, hrest⟩
      · simp at hnone
      · rcases split_concat hrest.symm with ⟨rfl, rfl, -⟩ | ⟨more, rfl, -⟩
        · apply (h.behind before f between hold).trans
          simpa only [Pacer.due, hwaiting] using hdue
        · exact h.between before f between g more hold
  | pass now =>
    obtain ⟨hclock, rfl⟩ := hstep
    refine ⟨h.reserved, ?_, h.between⟩
    intro before f after hsent
    apply (h.behind before f after hsent).trans
    rcases hwaiting : p.waiting with _ | ⟨due, cost⟩
    · simp only [Pacer.due, hwaiting]
      exact max_le_max le_rfl hclock
    · simp only [Pacer.due, hwaiting, le_refl]

theorem paced_of_reachable (h : (pacer α).Reachable p) : p.Paced := by
  refine h.invariant ?_ fun _ _ _ hpaced hstep => hpaced.step hstep
  rintro p ⟨hnone, hsent⟩
  constructor <;> simp [hnone, hsent]

end Pacer

end Transition
