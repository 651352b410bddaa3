import Mathlib

/-!
# `ChangeMembers::compute_members_diff`

The default `compute_members_diff` walks the new and the old member lists
side by side, as a merge: a member in both is skipped, a smaller old one is
outgoing and anything else is incoming.  On two sorted lists without
duplicates it returns exactly the new members that were not old and the old
ones that are not new, each in sorted order (`computeMembersDiff_eq`); on any
two lists every old member that is not new is outgoing
(`mem_computeMembersDiff_outgoing`).
-/

namespace OffchainStorage.Support

variable {AccountId : Type} [LinearOrder AccountId]

/-- The `loop` of `compute_members_diff` over what is left of the old and of
the new members: `(incoming, outgoing)`, each pushed in order. -/
def membersDiffLoop (oldMembers newMembers : List AccountId) : List AccountId × List AccountId :=
  match oldMembers, newMembers with
  | [], [] => ([], [])
  | old :: olds, new :: news =>
      if old = new then membersDiffLoop olds news
      else if old < new then
        let (incoming, outgoing) := membersDiffLoop olds (new :: news)
        (incoming, old :: outgoing)
      else
        let (incoming, outgoing) := membersDiffLoop (old :: olds) news
        (new :: incoming, outgoing)
  | old :: olds, [] =>
      let (incoming, outgoing) := membersDiffLoop olds []
      (incoming, old :: outgoing)
  | [], new :: news =>
      let (incoming, outgoing) := membersDiffLoop [] news
      (new :: incoming, outgoing)
termination_by oldMembers.length + newMembers.length

def computeMembersDiff (newMembers oldMembers : List AccountId) : List AccountId × List AccountId :=
  membersDiffLoop oldMembers newMembers

/-- Below the head of a strictly sorted list, nothing is in it. -/
theorem not_mem_of_lt_head {smaller head : AccountId} {rest : List AccountId}
    (sorted : (head :: rest).Pairwise (· < ·)) (below : smaller < head) : smaller ∉ head :: rest := by
  intro member
  rcases List.mem_cons.mp member with same | inRest
  · exact absurd same (ne_of_lt below)
  · exact absurd (List.rel_of_pairwise_cons sorted inRest) (not_lt_of_gt below)

/-- A filter by a list is unchanged by adding an element the filtered list
does not hold. -/
theorem filter_not_mem_cons {extra : AccountId} {excluded kept : List AccountId} (fresh : extra ∉ kept) :
    kept.filter (fun member => decide (member ∉ extra :: excluded)) =
      kept.filter fun member => decide (member ∉ excluded) := by
  refine List.filter_congr fun member inKept => ?_
  have different : member ≠ extra := fun same => fresh (same ▸ inKept)
  simp [different]

theorem filter_cons_fresh {extra : AccountId} {excluded kept : List AccountId} (fresh : extra ∉ excluded) :
    (extra :: kept).filter (fun member => decide (member ∉ excluded)) =
      extra :: kept.filter fun member => decide (member ∉ excluded) :=
  List.filter_cons_of_pos (by simpa using fresh)

theorem filter_cons_excluded {extra : AccountId} {excluded kept : List AccountId} :
    (extra :: kept).filter (fun member => decide (member ∉ extra :: excluded)) =
      kept.filter fun member => decide (member ∉ extra :: excluded) :=
  List.filter_cons_of_neg (by simp)

/-- On two strictly sorted lists the loop returns the new members that are
not old and the old ones that are not new. -/
theorem membersDiffLoop_eq (oldMembers newMembers : List AccountId)
    (oldSorted : oldMembers.Pairwise (· < ·)) (newSorted : newMembers.Pairwise (· < ·)) :
    membersDiffLoop oldMembers newMembers =
      (newMembers.filter fun member => decide (member ∉ oldMembers),
        oldMembers.filter fun member => decide (member ∉ newMembers)) := by
  fun_induction membersDiffLoop oldMembers newMembers with
  | case1 => rfl
  | case2 olds member news ih =>
    -- a member in both lists is neither incoming nor outgoing
    rw [ih oldSorted.of_cons newSorted.of_cons]
    have oldFresh : member ∉ olds := fun inOlds => lt_irrefl member (List.rel_of_pairwise_cons oldSorted inOlds)
    have newFresh : member ∉ news := fun inNews => lt_irrefl member (List.rel_of_pairwise_cons newSorted inNews)
    rw [filter_cons_excluded, filter_cons_excluded, filter_not_mem_cons newFresh, filter_not_mem_cons oldFresh]
  | case3 old olds new news different below incoming outgoing rest ih =>
    -- a smaller old member is outgoing
    rw [ih oldSorted.of_cons newSorted, Prod.mk.injEq] at rest
    obtain ⟨rfl, rfl⟩ := rest
    have outgoing : old ∉ new :: news := not_mem_of_lt_head newSorted below
    rw [filter_not_mem_cons outgoing, filter_cons_fresh outgoing]
  | case4 old olds new news different notBelow incoming outgoing rest ih =>
    -- a smaller new member is incoming
    rw [ih oldSorted newSorted.of_cons, Prod.mk.injEq] at rest
    obtain ⟨rfl, rfl⟩ := rest
    have above : new < old := lt_of_le_of_ne (not_lt.mp notBelow) (Ne.symm different)
    have incoming : new ∉ old :: olds := not_mem_of_lt_head oldSorted above
    rw [filter_not_mem_cons incoming, filter_cons_fresh incoming]
  | case5 old olds incoming outgoing rest ih =>
    rw [ih oldSorted.of_cons List.Pairwise.nil, Prod.mk.injEq] at rest
    obtain ⟨rfl, rfl⟩ := rest
    simp
  | case6 new news incoming outgoing rest ih =>
    rw [ih List.Pairwise.nil newSorted.of_cons, Prod.mk.injEq] at rest
    obtain ⟨rfl, rfl⟩ := rest
    simp

/-- On any two lists the loop skips an old member only when it meets it among
the new ones, so every old member that is not new is outgoing. -/
theorem mem_membersDiffLoop_outgoing {member : AccountId} (oldMembers newMembers : List AccountId)
    (inOld : member ∈ oldMembers) (notNew : member ∉ newMembers) :
    member ∈ (membersDiffLoop oldMembers newMembers).2 := by
  fun_induction membersDiffLoop oldMembers newMembers with
  | case1 => exact absurd inOld List.not_mem_nil
  | case2 olds same news ih =>
    have different : member ≠ same := fun equal => notNew (equal ▸ List.mem_cons_self)
    exact ih ((List.mem_cons.mp inOld).resolve_left different) fun inNews => notNew (List.mem_cons_of_mem _ inNews)
  | case3 old olds new news different below incoming outgoing rest ih =>
    rw [rest] at ih
    rcases List.mem_cons.mp inOld with rfl | inOlds
    · exact List.mem_cons_self
    · exact List.mem_cons_of_mem _ (ih inOlds notNew)
  | case4 old olds new news different notBelow incoming outgoing rest ih =>
    rw [rest] at ih
    exact ih inOld fun inNews => notNew (List.mem_cons_of_mem _ inNews)
  | case5 old olds incoming outgoing rest ih =>
    rw [rest] at ih
    rcases List.mem_cons.mp inOld with rfl | inOlds
    · exact List.mem_cons_self
    · exact List.mem_cons_of_mem _ (ih inOlds notNew)
  | case6 new news incoming outgoing rest ih => exact absurd inOld List.not_mem_nil

theorem mem_computeMembersDiff_outgoing {member : AccountId} {newMembers oldMembers : List AccountId}
    (inOld : member ∈ oldMembers) (notNew : member ∉ newMembers) :
    member ∈ (computeMembersDiff newMembers oldMembers).2 :=
  mem_membersDiffLoop_outgoing oldMembers newMembers inOld notNew

/-- `compute_members_diff` on two strictly sorted lists: the new members
that were not old and the old ones that are not new, both sorted. -/
theorem computeMembersDiff_eq (newMembers oldMembers : List AccountId)
    (newSorted : newMembers.Pairwise (· < ·)) (oldSorted : oldMembers.Pairwise (· < ·)) :
    computeMembersDiff newMembers oldMembers =
        (newMembers.filter fun member => decide (member ∉ oldMembers),
          oldMembers.filter fun member => decide (member ∉ newMembers)) ∧
      (computeMembersDiff newMembers oldMembers).1.Pairwise (· < ·) ∧
      (computeMembersDiff newMembers oldMembers).2.Pairwise (· < ·) := by
  have diff := membersDiffLoop_eq oldMembers newMembers oldSorted newSorted
  refine ⟨diff, ?_, ?_⟩
  · rw [computeMembersDiff, diff]
    exact newSorted.filter _
  · rw [computeMembersDiff, diff]
    exact oldSorted.filter _

end OffchainStorage.Support
