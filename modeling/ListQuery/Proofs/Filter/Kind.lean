import ListQuery.Filter.Kind
import Mathlib.Data.List.Induction
import Mathlib.Data.List.Sort

/-! Filters by kind, as a partition of the request. Each place of the list is in the bucket of its
kind and in no other, the buckets keep the order of the list, and merged by place they are the
list. Buckets are filled one filter at a time, each at its end. -/
namespace ListQuery

namespace Filter

/-- With one of the three operators of full-text search. -/
def IsFulltext (f : Filter) : Prop :=
  ∃ o ∈ f.operator, o = .web ∨ o = .plain ∨ o = .phrase

/-- With a negated operator and no other. -/
def IsNegation (f : Filter) : Prop := f.operator = none ∧ f.negation ≠ none

variable {f : Filter} {field : Option String}

theorem isFulltext_iff : f.IsFulltext ↔ f.operator.any Operator.isFulltext = true := by
  rw [Option.any_eq_true]
  refine exists_congr fun o => and_congr_right fun _ => ?_
  cases o <;> simp [Operator.isFulltext]

theorem isNegation_iff : f.IsNegation ↔ (f.operator.isNone && f.negation.isSome) = true := by
  rw [IsNegation, Bool.and_eq_true, Option.isNone_iff_eq_none, Option.isSome_iff_ne_none]

instance : Decidable f.IsFulltext := decidable_of_iff _ isFulltext_iff.symm

instance : Decidable f.IsNegation := decidable_of_iff _ isNegation_iff.symm

theorem IsNegation.not_isFulltext (h : f.IsNegation) : ¬ f.IsFulltext := by
  rintro ⟨o, ho, -⟩
  rw [h.1] at ho
  cases ho

/-- The kinds in the order in which they are looked for: what is asked of a kind is asked of a
filter of no kind before it. -/
theorem kind_eq : f.kind field =
    if field = some f.field then .relation
    else if f.IsFulltext then .fulltext
    else if f.IsNegation then .negation
    else .base := by
  simp only [kind, isFulltext_iff, isNegation_iff]

theorem kind_eq_relation_iff : f.kind field = .relation ↔ field = some f.field := by
  rw [kind_eq]
  split_ifs <;> simp_all

theorem kind_eq_fulltext_iff :
    f.kind field = .fulltext ↔ field ≠ some f.field ∧ f.IsFulltext := by
  rw [kind_eq]
  split_ifs <;> simp_all

theorem kind_eq_negation_iff :
    f.kind field = .negation ↔ field ≠ some f.field ∧ f.IsNegation := by
  have apart := IsNegation.not_isFulltext (f := f)
  rw [kind_eq]
  split_ifs <;> simp_all

theorem kind_eq_base_iff :
    f.kind field = .base ↔ field ≠ some f.field ∧ ¬ f.IsFulltext ∧ ¬ f.IsNegation := by
  rw [kind_eq]
  split_ifs <;> simp_all

theorem alone_of_kind (h : f.kind field = .negation) :
    (f.operator.isNone && f.negation.isSome) = true :=
  isNegation_iff.1 (kind_eq_negation_iff.1 h).2

theorem not_alone_of_kind (h : f.kind field = .base ∨ f.kind field = .fulltext) :
    ¬ (f.operator.isNone && f.negation.isSome) = true := by
  rw [← isNegation_iff]
  rcases h with base | fulltext
  · exact (kind_eq_base_iff.1 base).2.2
  · exact fun alone => alone.not_isFulltext (kind_eq_fulltext_iff.1 fulltext).2

end Filter

namespace ByKind

variable {α : Type}

def bucket (b : ByKind α) : FilterKind → List α
  | .relation => b.relation
  | .fulltext => b.fulltext
  | .negation => b.negation
  | .base => b.base

def items (b : ByKind α) : List α := b.relation ++ b.fulltext ++ b.negation ++ b.base

/-- Puts an item at the end of a bucket. -/
def push (b : ByKind α) : FilterKind → α → ByKind α
  | .relation, a => { b with relation := b.relation ++ [a] }
  | .fulltext, a => { b with fulltext := b.fulltext ++ [a] }
  | .negation, a => { b with negation := b.negation ++ [a] }
  | .base, a => { b with base := b.base ++ [a] }

theorem items_push_perm (b : ByKind α) (k : FilterKind) (a : α) :
    (b.push k a).items.Perm (a :: b.items) := by
  have last (xs : List α) : (xs ++ [a]).Perm (a :: xs) := List.perm_append_singleton a xs
  cases k with
  | relation =>
    exact (((last b.relation).append_right _).append_right _).append_right _
  | fulltext =>
    have front := ((last b.fulltext).append_left b.relation).trans List.perm_middle
    exact (front.append_right _).append_right _
  | negation =>
    have front := ((last b.negation).append_left (b.relation ++ b.fulltext)).trans
      List.perm_middle
    exact front.append_right _
  | base =>
    exact ((last b.base).append_left _).trans List.perm_middle

section Of

variable (field : Option String) (filter : α → Filter) (xs : List α)

theorem bucket_of (k : FilterKind) :
    (of field filter xs).bucket k = xs.filter fun a => (filter a).kind field == k := by
  cases k <;> rfl

theorem of_concat (a : α) : of field filter (xs ++ [a]) =
    (of field filter xs).push ((filter a).kind field) a := by
  simp only [of, List.filter_append]
  cases h : (filter a).kind field <;> simp [push, h]

/-- Items are distributed one after another. -/
theorem of_eq_foldl : of field filter xs =
    xs.foldl (fun b a => b.push ((filter a).kind field) a) ⟨[], [], [], []⟩ := by
  induction xs using List.reverseRecOn with
  | nil => rfl
  | append_singleton xs a ih => rw [of_concat, ih, List.foldl_concat]

theorem items_of_perm : (of field filter xs).items.Perm xs := by
  induction xs using List.reverseRecOn with
  | nil => exact .nil
  | append_singleton xs a ih =>
    rw [of_concat]
    exact (items_push_perm _ _ a).trans ((ih.cons a).trans (List.perm_append_singleton a xs).symm)

theorem size_of : (of field filter xs).size = xs.length := by
  rw [← (items_of_perm field filter xs).length_eq]
  simp only [size, items, List.length_append]

theorem map_bucket_of {β : Type} (g : β → α) (ys : List β) (k : FilterKind) :
    (of field filter (ys.map g)).bucket k = ((of field (filter ∘ g) ys).bucket k).map g := by
  rw [bucket_of, bucket_of, List.filter_map]
  rfl

theorem join_of :
    (of field filter xs).join = .inner ↔ ∃ a ∈ xs, field = some (filter a).field := by
  simp [join, of, List.isEmpty_iff, List.filter_eq_nil_iff, Filter.kind_eq_relation_iff]

end Of

/-- The buckets `b` of places partition a list of filters. -/
structure Partitions (field : Option String) (filters : List Filter)
    (b : ByKind (Filter × Nat)) : Prop where
  relation (f : Filter) (i : Nat) : (f, i) ∈ b.relation ↔
    filters[i]? = some f ∧ field = some f.field
  fulltext (f : Filter) (i : Nat) : (f, i) ∈ b.fulltext ↔
    filters[i]? = some f ∧ field ≠ some f.field ∧ f.IsFulltext
  negation (f : Filter) (i : Nat) : (f, i) ∈ b.negation ↔
    filters[i]? = some f ∧ field ≠ some f.field ∧ f.IsNegation
  base (f : Filter) (i : Nat) : (f, i) ∈ b.base ↔
    filters[i]? = some f ∧ field ≠ some f.field ∧ ¬ f.IsFulltext ∧ ¬ f.IsNegation
  /-- Each place is in one bucket. -/
  one (i : Nat) (h : i < filters.length) : ∃! k, i ∈ (b.bucket k).map Prod.snd
  /-- Each bucket lists its places in increasing order. -/
  increasing (k : FilterKind) : ((b.bucket k).map Prod.snd).Pairwise (· < ·)
  /-- Merged by place, the buckets give back the list. -/
  merged : (b.items.mergeSort fun x y => x.2 ≤ y.2).map Prod.fst = filters
  size : b.size = filters.length

theorem mem_bucket_zipIdx (field : Option String) (filters : List Filter) (k : FilterKind)
    (f : Filter) (i : Nat) : (f, i) ∈ (of field Prod.fst filters.zipIdx).bucket k ↔
      filters[i]? = some f ∧ f.kind field = k := by
  rw [bucket_of, List.mem_filter, List.mk_mem_zipIdx_iff_getElem?, beq_iff_eq]

theorem pairwise_zipIdx (filters : List Filter) :
    filters.zipIdx.Pairwise fun x y => x.2 < y.2 := by
  have places := List.pairwise_lt_range' (s := 0) (n := filters.length)
  rw [← List.zipIdx_map_snd 0 filters] at places
  exact List.pairwise_map.1 places

theorem merged_zipIdx (field : Option String) (filters : List Filter) :
    ((of field Prod.fst filters.zipIdx).items.mergeSort fun x y => x.2 ≤ y.2) =
      filters.zipIdx := by
  have perm : ((of field Prod.fst filters.zipIdx).items.mergeSort fun x y => x.2 ≤ y.2).Perm
      filters.zipIdx := (List.mergeSort_perm _ _).trans (items_of_perm field Prod.fst _)
  have sorted : ((of field Prod.fst filters.zipIdx).items.mergeSort fun x y =>
      x.2 ≤ y.2).Pairwise fun x y => decide (x.2 ≤ y.2) = true := List.pairwise_mergeSort
    (fun x y z hxy hyz => by simp only [decide_eq_true_eq] at *; omega)
    (fun x y => by simp only [Bool.or_eq_true, decide_eq_true_eq]; omega)
    (of field Prod.fst filters.zipIdx).items
  have places : filters.zipIdx.Pairwise fun x y => decide (x.2 ≤ y.2) = true :=
    (pairwise_zipIdx filters).imp fun h => decide_eq_true h.le
  refine perm.eq_of_pairwise ?_ sorted places
  -- Two filters at one place are one filter.
  intro x y hx hy hxy hyx
  have same : x.2 = y.2 := Nat.le_antisymm (of_decide_eq_true hxy) (of_decide_eq_true hyx)
  have hx := List.mem_zipIdx_iff_getElem?.1 (perm.subset hx)
  have hy := List.mem_zipIdx_iff_getElem?.1 hy
  rw [same, hy] at hx
  exact Prod.ext (Option.some.inj hx).symm same

theorem existsUnique_bucket (field : Option String) (filters : List Filter) (i : Nat)
    (h : i < filters.length) :
    ∃! k, i ∈ ((of field Prod.fst filters.zipIdx).bucket k).map Prod.snd := by
  have mem (k : FilterKind) : i ∈ ((of field Prod.fst filters.zipIdx).bucket k).map Prod.snd ↔
      filters[i].kind field = k := by
    simp only [List.mem_map, Prod.exists, mem_bucket_zipIdx, exists_eq_right,
      List.getElem?_eq_getElem h, Option.some.injEq, exists_eq_left']
  simp only [mem]
  exact ⟨_, rfl, fun k hk => hk.symm⟩

/-- The places of a request are partitioned by kind. The request itself is distributed in the same
way, one filter after another, and it joins the relation exactly if a filter is on its field. -/
theorem of_partitions (field : Option String) (filters : List Filter) :
    (of field Prod.fst filters.zipIdx).Partitions field filters ∧
      (∀ k, (of field id filters).bucket k =
        ((of field Prod.fst filters.zipIdx).bucket k).map Prod.fst) ∧
      of field id filters =
        filters.foldl (fun b f => b.push (f.kind field) f) ⟨[], [], [], []⟩ ∧
      ((of field id filters).join = .inner ↔ ∃ f ∈ filters, field = some f.field) := by
  have places : filters.zipIdx.map Prod.fst = filters := List.zipIdx_map_fst 0 filters
  refine ⟨?_, fun k => ?_, of_eq_foldl field id filters, join_of field id filters⟩
  · have mem := mem_bucket_zipIdx field filters
    exact
      { relation := fun f i => (mem .relation f i).trans (by rw [Filter.kind_eq_relation_iff])
        fulltext := fun f i => (mem .fulltext f i).trans (by rw [Filter.kind_eq_fulltext_iff])
        negation := fun f i => (mem .negation f i).trans (by rw [Filter.kind_eq_negation_iff])
        base := fun f i => (mem .base f i).trans (by rw [Filter.kind_eq_base_iff])
        one := existsUnique_bucket field filters
        increasing := fun k => by
          rw [bucket_of]
          exact List.pairwise_map.2 ((pairwise_zipIdx filters).filter _)
        merged := by rw [merged_zipIdx, places]
        size := by rw [size_of, List.length_zipIdx] }
  · have split := map_bucket_of field id Prod.fst filters.zipIdx k
    rwa [places] at split

/-- The relation field goes before everything else, and a full-text operator before a negation. -/
example :
    let b := of (some "labels") Prod.fst (List.zipIdx
      [⟨"labels", "l3", some .plain, some .eq⟩, ⟨"name", "phone", some .web, some .like⟩,
        ⟨"status", "sold", none, some .eq⟩, ⟨"price", "9", some .ge, some .eq⟩])
    [b.relation, b.fulltext, b.negation, b.base].map (·.map Prod.snd) = [[0], [1], [2], [3]] := by
  decide

end ByKind
end ListQuery
