import Mathlib
import OffchainStorage.Lib.Rounding

/-!
# Vote thresholds

`VoteThreshold::approved` decides a referendum by comparing two ratios of
votes biased by the turnout, through `compare_rationals`.  That function
decides `n1 / d1 < n2 / d2` without multiplying: it compares the whole parts,
and when they agree it compares the fractional parts `r1 / d1` and `r2 / d2`
as the reciprocals `d2 / r2` and `d1 / r1`, a continued fraction.  The
arguments are the source's, so `compareRationals d2 r2 d1 r1` is the next
round of the loop; the sum of the denominators falls each round.

On nonzero denominators it is the comparison of cross products
(`compareRationals_eq`), and it panics on a zero denominator only.  The
integer square root of the `integer-sqrt` crate is `Nat.sqrt`.  With voters
present and at most the electorate, `approved` is the comparison of
`approve` and `against` weighted by those roots (`approved_eq`), so it never
panics and more approval or less opposition keeps an approved outcome.
-/

namespace OffchainStorage.Democracy

/-- `compare_rationals(n1, d1, n2, d2)`: whether `n1 / d1 < n2 / d2`; `none`
is the panic of a division by zero. -/
def compareRationals (n1 d1 n2 d2 : Nat) : Option Bool :=
  if d1Zero : d1 = 0 then none
  else if d2Zero : d2 = 0 then none
  else if n1 / d1 < n2 / d2 then some true
  else if n2 / d2 < n1 / d1 then some false
  else if n2 % d2 = 0 then some false
  else if n1 % d1 = 0 then some true
  else compareRationals d2 (n2 % d2) d1 (n1 % d1)
termination_by d1 + d2
decreasing_by
  have first := Nat.mod_lt n1 (Nat.pos_of_ne_zero d1Zero)
  have second := Nat.mod_lt n2 (Nat.pos_of_ne_zero d2Zero)
  omega

/-- The comparison is exact on nonzero denominators. -/
theorem compareRationals_eq (n1 n2 : Nat) {d1 d2 : Nat} (d1Positive : 0 < d1) (d2Positive : 0 < d2) :
    compareRationals n1 d1 n2 d2 = some (decide (n1 * d2 < n2 * d1)) := by
  fun_induction compareRationals n1 d1 n2 d2 with
  | case1 => omega
  | case2 => omega
  | case3 n1 d1 n2 d2 _ _ smaller =>
    rw [decide_eq_true (Rounding.cross_lt_of_div_lt d1Positive d2Positive smaller)]
  | case4 n1 d1 n2 d2 _ _ _ larger =>
    have reversed := Rounding.cross_lt_of_div_lt d2Positive d1Positive larger
    rw [decide_eq_false (by omega)]
  | case5 n1 d1 n2 d2 _ _ notSmaller notLarger whole =>
    have same : n1 / d1 = n2 / d2 := by omega
    rw [decide_eq_false (by rw [Rounding.cross_lt_iff_mod same, whole]; omega)]
  | case6 n1 d1 n2 d2 _ _ notSmaller notLarger partNonzero whole =>
    have same : n1 / d1 = n2 / d2 := by omega
    have partPositive : 0 < n2 % d2 * d1 := Nat.mul_pos (Nat.pos_of_ne_zero partNonzero) d1Positive
    rw [decide_eq_true (by rw [Rounding.cross_lt_iff_mod same, whole]; omega)]
  | case7 n1 d1 n2 d2 _ _ notSmaller notLarger secondPart firstPart ih =>
    -- the next round compares the reciprocals of the fractional parts
    have same : n1 / d1 = n2 / d2 := by omega
    have reciprocal : d2 * (n1 % d1) < d1 * (n2 % d2) ↔ n1 * d2 < n2 * d1 := by
      rw [Rounding.cross_lt_iff_mod same, Nat.mul_comm d2, Nat.mul_comm d1]
    rw [ih (Nat.pos_of_ne_zero secondPart) (Nat.pos_of_ne_zero firstPart)]
    exact congrArg some (decide_eq_decide.mpr reciprocal)

/-- It panics exactly on a zero denominator. -/
theorem compareRationals_eq_none (n1 d1 n2 d2 : Nat) :
    compareRationals n1 d1 n2 d2 = none ↔ d1 = 0 ∨ d2 = 0 := by
  constructor
  · intro panics
    by_contra nonzero
    rw [compareRationals_eq n1 n2 (by omega) (by omega)] at panics
    cases panics
  · rintro (zero | zero) <;> rw [compareRationals] <;> simp [zero]

/-- `VoteThreshold`: the three rules a referendum may be decided by. -/
inductive VoteThreshold where
  | SuperMajorityApprove
  | SuperMajorityAgainst
  | SimpleMajority
  deriving DecidableEq, Repr

namespace VoteThreshold

/-- `approved(approve, against, voters, electorate)`. -/
def approved (threshold : VoteThreshold) (approve against voters electorate : Nat) : Option Bool :=
  let sqrtVoters := Nat.sqrt voters
  let sqrtElectorate := Nat.sqrt electorate
  if sqrtVoters = 0 then some false
  else match threshold with
    | SuperMajorityApprove => compareRationals against sqrtVoters approve sqrtElectorate
    | SuperMajorityAgainst => compareRationals against sqrtElectorate approve sqrtVoters
    | SimpleMajority => some (against < approve)

/-- What `approved` decides, with the two roots given: each super-majority
rule weights the sides by the roots of the turnout and of the electorate the
other way round. -/
def approves (threshold : VoteThreshold) (approve against sqrtVoters sqrtElectorate : Nat) : Prop :=
  match threshold with
  | SuperMajorityApprove => against * sqrtElectorate < approve * sqrtVoters
  | SuperMajorityAgainst => against * sqrtVoters < approve * sqrtElectorate
  | SimpleMajority => against < approve

instance (threshold : VoteThreshold) (approve against sqrtVoters sqrtElectorate : Nat) :
    Decidable (threshold.approves approve against sqrtVoters sqrtElectorate) := by
  cases threshold <;> unfold approves <;> infer_instance

/-- With voters present and no more of them than the electorate, `approved`
compares the weighted sides. -/
theorem approved_eq (threshold : VoteThreshold) (approve against : Nat) {voters electorate : Nat}
    (voted : 0 < voters) (within : voters ≤ electorate) :
    threshold.approved approve against voters electorate =
      some (decide (threshold.approves approve against (Nat.sqrt voters) (Nat.sqrt electorate))) := by
  have votersRoot : 0 < Nat.sqrt voters := Nat.sqrt_pos.mpr voted
  have electorateRoot : 0 < Nat.sqrt electorate := Nat.lt_of_lt_of_le votersRoot (Nat.sqrt_le_sqrt within)
  unfold approved
  rw [if_neg (Nat.pos_iff_ne_zero.mp votersRoot)]
  cases threshold with
  | SuperMajorityApprove => exact compareRationals_eq against approve votersRoot electorateRoot
  | SuperMajorityAgainst => exact compareRationals_eq against approve electorateRoot votersRoot
  | SimpleMajority => rfl

/-- More approval and less opposition keep a weighted comparison won. -/
theorem approves_mono (threshold : VoteThreshold) {approve approve' against against' sqrtVoters sqrtElectorate : Nat}
    (moreApproval : approve ≤ approve') (lessOpposition : against' ≤ against)
    (won : threshold.approves approve against sqrtVoters sqrtElectorate) :
    threshold.approves approve' against' sqrtVoters sqrtElectorate := by
  cases threshold with
  | SuperMajorityApprove =>
    have approveMore := Nat.mul_le_mul_right sqrtVoters moreApproval
    have againstLess := Nat.mul_le_mul_right sqrtElectorate lessOpposition
    exact Nat.lt_of_le_of_lt againstLess (Nat.lt_of_lt_of_le won approveMore)
  | SuperMajorityAgainst =>
    have approveMore := Nat.mul_le_mul_right sqrtElectorate moreApproval
    have againstLess := Nat.mul_le_mul_right sqrtVoters lessOpposition
    exact Nat.lt_of_le_of_lt againstLess (Nat.lt_of_lt_of_le won approveMore)
  | SimpleMajority => exact Nat.lt_of_le_of_lt lessOpposition (Nat.lt_of_lt_of_le won moreApproval)

end VoteThreshold

theorem compare_rationals_exact_approved_monotone :
    (∀ n1 d1 n2 d2 : Nat, 0 < d1 → 0 < d2 → compareRationals n1 d1 n2 d2 = some (decide (n1 * d2 < n2 * d1))) ∧
      ∀ (threshold : VoteThreshold) (approve against voters electorate : Nat), 0 < voters → voters ≤ electorate →
        (∃ outcome, threshold.approved approve against voters electorate = some outcome) ∧
        ∀ approve' against', approve ≤ approve' → against' ≤ against →
          threshold.approved approve against voters electorate = some true →
          threshold.approved approve' against' voters electorate = some true := by
  refine ⟨fun n1 d1 n2 d2 d1Positive d2Positive => compareRationals_eq n1 n2 d1Positive d2Positive, ?_⟩
  intro threshold approve against voters electorate voted within
  refine ⟨⟨_, threshold.approved_eq approve against voted within⟩, ?_⟩
  intro approve' against' moreApproval lessOpposition won
  rw [threshold.approved_eq approve against voted within, Option.some_inj, decide_eq_true_iff] at won
  rw [threshold.approved_eq approve' against' voted within, decide_eq_true (threshold.approves_mono moreApproval lessOpposition won)]

end OffchainStorage.Democracy
