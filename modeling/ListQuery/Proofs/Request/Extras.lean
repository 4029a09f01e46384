import ListQuery.Proofs.Request.Key
import ListQuery.Request.Extras

/-! Laws of extras: what was claimed pair by pair is claimed again from the pairs it is written as,
and bringing it into shape keeps it so. -/
namespace ListQuery
namespace Extras

/-- The values that a record takes by claiming pairs. -/
inductive Claimed {X : Type} [Extras X] : X → Prop where
  | empty : Claimed Extras.empty
  | claim {x y : X} (key value : String) (h : Claimed x)
      (hc : Extras.claim x key value = some y) : Claimed y

/-- Claims pairs one after another, if all of them are claimed. -/
def claimAll {X : Type} [Extras X] (x : X) (ps : List (String × String)) : Option X :=
  ps.foldlM (fun y p => Extras.claim y p.1 p.2) x

end Extras

open Extras

class LawfulExtras (X : Type) [Extras X] : Prop where
  /-- Whether a pair is claimed does not depend on what was claimed before. -/
  claim_eq_none {x : X} (y : X) {key value : String} :
    claim x key value = none → claim y key value = none
  /-- The pairs of a record have keys outside the grammar. -/
  spelled_of_mem {x : X} {p : String × String} : p ∈ pairs x → ∀ k, ¬ Key.Spelled k p.1
  claimAll_pairs {x : X} : Claimed x → claimAll Extras.empty (pairs x) = some x
  claimed_restrict {x : X} : Claimed x → Claimed (restrict x)
  restrict_restrict (x : X) : restrict (restrict x) = restrict x

theorem choice_choice (allowed : List String) (value : Option String) :
    choice allowed (choice allowed value) = choice allowed value := by
  simp only [choice, Option.filter_filter, Bool.and_self]

instance : LawfulExtras NoExtras where
  claim_eq_none _ _ _ _ := rfl
  spelled_of_mem h := by simp [pairs, entries] at h
  claimAll_pairs _ := rfl
  claimed_restrict h := h
  restrict_restrict _ := rfl

theorem OrderExtras.claimed (x : OrderExtras) : Claimed x := by
  obtain ⟨status⟩ := x
  cases status with
  | none => exact .empty
  | some v => exact .claim "status" v .empty rfl

instance : LawfulExtras OrderExtras where
  claim_eq_none y key value h := by
    simp only [claim] at h ⊢
    split at h
    next => simp at h
    next hk => rw [if_neg hk]
  spelled_of_mem {x p} h := by
    obtain ⟨status⟩ := x
    have hk : p.1 = "status" := by
      cases status <;> simp [pairs, entries] at h
      rw [h]
    rw [hk]
    exact Key.ofString_eq_other_iff.1 (by decide)
  claimAll_pairs {x} _ := by
    obtain ⟨status⟩ := x
    cases status <;> simp [claimAll, pairs, entries, claim, Extras.empty]
  claimed_restrict _ := OrderExtras.claimed _
  restrict_restrict x := by simp [restrict, choice_choice]

/-- Only the empty owner is out of reach. -/
theorem LabelExtras.claimed_iff (x : LabelExtras) : Claimed x ↔ x.owner ≠ some "" := by
  constructor
  · intro h
    induction h with
    | empty => simp [Extras.empty]
    | claim key value _ hc ih =>
      simp only [claim] at hc
      split at hc
      · obtain rfl := Option.some.inj hc
        exact ih
      · split at hc
        next hv =>
          obtain rfl := Option.some.inj hc
          simpa using hv.2
        next => simp at hc
  · intro h
    obtain ⟨kind, owner⟩ := x
    have hk : Claimed (X := LabelExtras) ⟨kind, none⟩ := by
      cases kind with
      | none => exact .empty
      | some v => exact .claim "type" v .empty rfl
    cases owner with
    | none => exact hk
    | some v =>
      have hv : v ≠ "" := by simpa using h
      exact .claim "owner" v hk (by simp [claim, hv])

instance : LawfulExtras LabelExtras where
  claim_eq_none y key value h := by
    simp only [claim] at h ⊢
    split at h
    next => simp at h
    next hk =>
      split at h
      next => simp at h
      next hv => rw [if_neg hk, if_neg hv]
  spelled_of_mem {x p} h := by
    obtain ⟨kind, owner⟩ := x
    have hk : p.1 = "type" ∨ p.1 = "owner" := by
      cases kind <;> cases owner <;> simp [pairs, entries] at h <;> grind
    rcases hk with hk | hk <;> rw [hk] <;> exact Key.ofString_eq_other_iff.1 (by decide)
  claimAll_pairs {x} h := by
    have h := (LabelExtras.claimed_iff x).1 h
    obtain ⟨kind, owner⟩ := x
    cases kind <;> cases owner <;> simp_all [claimAll, pairs, entries, claim, Extras.empty]
  claimed_restrict {x} h := by
    rw [LabelExtras.claimed_iff] at h ⊢
    exact h
  restrict_restrict x := by simp [restrict, choice_choice]

inductive ExtrasKind where
  | none
  | order
  | label

namespace ExtrasKind

def Record : ExtrasKind → Type
  | .none => NoExtras
  | .order => OrderExtras
  | .label => LabelExtras

instance (k : ExtrasKind) : Extras k.Record :=
  match k with
  | .none => inferInstanceAs (Extras NoExtras)
  | .order => inferInstanceAs (Extras OrderExtras)
  | .label => inferInstanceAs (Extras LabelExtras)

instance (k : ExtrasKind) : LawfulExtras k.Record :=
  match k with
  | .none => inferInstanceAs (LawfulExtras NoExtras)
  | .order => inferInstanceAs (LawfulExtras OrderExtras)
  | .label => inferInstanceAs (LawfulExtras LabelExtras)

end ExtrasKind
end ListQuery
