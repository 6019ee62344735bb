import Mathlib.Data.List.Sort
import Mathlib.Logic.Equiv.Defs
import Reshape.Proofs.Related

/-!
# Lists in another order

Entries belong to groups. Here the groups are put in another order, while the entries of each group
stay in their order.

* `Rearranges` says which place each entry goes to. Blocks of entries, one for each group, can be put
  in any order (`exists_rearranges`).
* `SameByGroup` says no more than that corresponding groups have related entries. Searches in one
  group do not see the difference (`SameByGroup.rel_find?`), and neither does a search for the only
  entry of all (`SameByGroup.rel_pick?`).
* `filter_mergeSort` says that a part of a list comes out of sorting as if it were sorted alone.
-/

namespace Reshape

variable {κ κ' α β γ δ : Type}

/-! ## Places -/

/-- The entry at a place `i` of the first list is, up to the name `ρ` of its group, the entry at the
place `σ i` of the second, and the entries of each group stay in order. -/
structure Rearranges (ρ : κ → κ') (σ : Nat → Nat) (L : List (κ × α)) (L' : List (κ' × α)) :
    Prop where
  bijective : Function.Bijective σ
  length_eq : L'.length = L.length
  getElem?_eq : ∀ i, L'[σ i]? = L[i]?.map (Prod.map ρ id)
  lt_of_lt : ∀ i j a b, i < j → L[i]? = some a → L[j]? = some b → a.1 = b.1 → σ i < σ j

namespace Rearranges

/-- The place of an entry among two lists of entries, each of which is put in another order. -/
def appended (n : Nat) (σ τ : Nat → Nat) (i : Nat) : Nat := if i < n then σ i else n + τ (i - n)

/-- The place of an entry when the first `m` entries and the next `n` change places. -/
def swapped (m n : Nat) (i : Nat) : Nat := if i < m then n + i else if i < m + n then i - m else i

variable {ρ : κ → κ'} {σ τ : Nat → Nat} {L M : List (κ × α)} {L' M' : List (κ' × α)}

theorem lt_length_iff (h : Rearranges ρ σ L L') {i : Nat} : σ i < L.length ↔ i < L.length := by
  have hnone : L'[σ i]? = none ↔ L[i]? = none := by rw [h.getElem?_eq, Option.map_eq_none_iff]
  rw [List.getElem?_eq_none_iff, List.getElem?_eq_none_iff, h.length_eq] at hnone
  omega

theorem refl (L : List (κ × α)) : Rearranges id id L L :=
  ⟨Function.bijective_id, rfl, fun i => by simp, fun i j _ _ h _ _ _ => h⟩

theorem trans {κ'' : Type} {ρ' : κ' → κ''} {L'' : List (κ'' × α)} (h : Rearranges ρ σ L L')
    (h' : Rearranges ρ' τ L' L'') : Rearranges (ρ' ∘ ρ) (τ ∘ σ) L L'' where
  bijective := h'.bijective.comp h.bijective
  length_eq := h'.length_eq.trans h.length_eq
  getElem?_eq i := by
    rw [Function.comp_apply, h'.getElem?_eq, h.getElem?_eq, Option.map_map]
    rfl
  lt_of_lt i j a b hij ha hb hab := by
    refine h'.lt_of_lt _ _ (Prod.map ρ id a) (Prod.map ρ id b) (h.lt_of_lt i j a b hij ha hb hab)
      ?_ ?_ (congrArg ρ hab)
    · rw [h.getElem?_eq, ha]
      rfl
    · rw [h.getElem?_eq, hb]
      rfl

/-- Other names for the groups. -/
theorem of_map (h : Rearranges id σ (L.map (Prod.map ρ id)) L') : Rearranges ρ σ L L' where
  bijective := h.bijective
  length_eq := by rw [h.length_eq, List.length_map]
  getElem?_eq i := by rw [h.getElem?_eq, List.getElem?_map, Prod.map_id, Option.map_id_apply]
  lt_of_lt i j a b hij ha hb hab :=
    h.lt_of_lt i j (Prod.map ρ id a) (Prod.map ρ id b) hij (by rw [List.getElem?_map, ha]; rfl)
      (by rw [List.getElem?_map, hb]; rfl) (congrArg ρ hab)

/-- What is made of the entries. -/
theorem map (h : Rearranges ρ σ L L') (f : α → β) :
    Rearranges ρ σ (L.map (Prod.map id f)) (L'.map (Prod.map id f)) where
  bijective := h.bijective
  length_eq := by rw [List.length_map, List.length_map, h.length_eq]
  getElem?_eq i := by
    rw [List.getElem?_map, List.getElem?_map, h.getElem?_eq, Option.map_map, Option.map_map]
    rfl
  lt_of_lt i j a b hij ha hb hab := by
    rw [List.getElem?_map] at ha hb
    obtain ⟨x, hx, rfl⟩ := Option.map_eq_some_iff.1 ha
    obtain ⟨y, hy, rfl⟩ := Option.map_eq_some_iff.1 hb
    exact h.lt_of_lt i j x y hij hx hy hab

theorem append (h : Rearranges ρ σ L L') (h' : Rearranges ρ τ M M') :
    Rearranges ρ (appended L.length σ τ) (L ++ M) (L' ++ M') where
  bijective := by
    refine ⟨fun i j hij => ?_, fun j => ?_⟩
    · have hi := h.lt_length_iff (i := i)
      have hj := h.lt_length_iff (i := j)
      simp only [appended] at hij
      split at hij <;> split at hij
      · exact h.bijective.1 hij
      · omega
      · omega
      · have := h'.bijective.1 (Nat.add_left_cancel hij)
        omega
    · obtain hj | hj := Nat.lt_or_ge j L.length
      · obtain ⟨i, rfl⟩ := h.bijective.2 j
        exact ⟨i, if_pos (h.lt_length_iff.1 hj)⟩
      · obtain ⟨i, hi⟩ := h'.bijective.2 (j - L.length)
        refine ⟨L.length + i, ?_⟩
        rw [appended, if_neg (by omega), Nat.add_sub_cancel_left, hi]
        omega
  length_eq := by rw [List.length_append, List.length_append, h.length_eq, h'.length_eq]
  getElem?_eq i := by
    rw [appended]
    split
    · next hi =>
      rw [List.getElem?_append_left hi,
        List.getElem?_append_left (by rw [h.length_eq]; exact h.lt_length_iff.2 hi), h.getElem?_eq]
    · next hi =>
      rw [List.getElem?_append_right (Nat.le_of_not_lt hi),
        List.getElem?_append_right (by rw [h.length_eq]; omega), h.length_eq,
        Nat.add_sub_cancel_left, h'.getElem?_eq]
  lt_of_lt i j a b hij ha hb hab := by
    have hi := h.lt_length_iff (i := i)
    rw [appended, appended]
    split <;> split
    · next hi hj =>
      rw [List.getElem?_append_left hi] at ha
      rw [List.getElem?_append_left hj] at hb
      exact h.lt_of_lt i j a b hij ha hb hab
    · omega
    · omega
    · next hi hj =>
      rw [List.getElem?_append_right (Nat.le_of_not_lt hi)] at ha
      rw [List.getElem?_append_right (Nat.le_of_not_lt hj)] at hb
      exact Nat.add_lt_add_left (h'.lt_of_lt _ _ a b (by omega) ha hb hab) _

/-- Two blocks without common groups change places. -/
theorem swap (h : ∀ a ∈ L, ∀ b ∈ M, a.1 ≠ b.1) :
    Rearranges id (swapped L.length M.length) (L ++ M) (M ++ L) where
  bijective := by
    refine ⟨fun i j hij => ?_, fun j => ?_⟩
    · simp only [swapped] at hij
      split_ifs at hij <;> omega
    · refine ⟨if j < M.length then L.length + j else if j < L.length + M.length then
        j - M.length else j, ?_⟩
      simp only [swapped]
      split_ifs <;> omega
  length_eq := by simp [Nat.add_comm]
  getElem?_eq i := by
    rw [Prod.map_id, Option.map_id_apply, swapped]
    split_ifs with hi hi'
    · rw [List.getElem?_append_right (Nat.le_add_right _ _), Nat.add_sub_cancel_left,
        List.getElem?_append_left hi]
    · rw [List.getElem?_append_right (Nat.le_of_not_lt hi), List.getElem?_append_left (by omega)]
    · rw [List.getElem?_eq_none (by rw [List.length_append]; omega),
        List.getElem?_eq_none (by rw [List.length_append]; omega)]
  lt_of_lt i j a b hij ha hb hab := by
    rw [swapped, swapped]
    split_ifs with hi hj hj' hi' hj <;> try omega
    rw [List.getElem?_append_left hi] at ha
    rw [List.getElem?_append_right (by omega)] at hb
    exact absurd hab (h a (List.mem_of_getElem? ha) b (List.mem_of_getElem? hb))

end Rearranges

/-- Blocks of entries, each with a group of its own, in any other order. -/
theorem exists_rearranges_of_perm {xs ys : List (κ × β)} (h : xs.Perm ys)
    (hnodup : (xs.map (·.1)).Nodup) (f : β → List α) :
    ∃ σ, Rearranges id σ (xs.flatMap fun x => (f x.2).map (x.1, ·))
      (ys.flatMap fun x => (f x.2).map (x.1, ·)) := by
  induction h with
  | nil => exact ⟨id, .refl _⟩
  | cons x _ ih =>
    obtain ⟨σ, hσ⟩ := ih (List.nodup_cons.1 hnodup).2
    exact ⟨_, (Rearranges.refl _).append hσ⟩
  | swap x y rest =>
    rw [List.map_cons, List.nodup_cons] at hnodup
    have hdisjoint : ∀ a ∈ (f y.2).map (y.1, ·), ∀ b ∈ (f x.2).map (x.1, ·), a.1 ≠ b.1 := by
      simp only [List.mem_map]
      rintro _ ⟨a, -, rfl⟩ _ ⟨b, -, rfl⟩ heq
      exact hnodup.1 (List.mem_cons.2 (.inl heq))
    have hswap := (Rearranges.swap hdisjoint).append
      (.refl (rest.flatMap fun x => (f x.2).map (x.1, ·)))
    simp only [List.flatMap_cons]
    rw [← List.append_assoc, ← List.append_assoc]
    exact ⟨_, hswap⟩
  | trans hxy _ ih ih' =>
    obtain ⟨σ, hσ⟩ := ih hnodup
    obtain ⟨τ, hτ⟩ := ih' ((hxy.map _).nodup_iff.1 hnodup)
    exact ⟨_, hσ.trans hτ⟩

/-- Blocks of entries, each with a group of its own, in any other order and with other names for the
groups. -/
theorem exists_rearranges {ρ : κ → κ'} {xs : List (κ × β)} {ys : List (κ' × β)}
    (h : (xs.map (Prod.map ρ id)).Perm ys) (hnodup : (ys.map (·.1)).Nodup) (f : β → List α) :
    ∃ σ, Rearranges ρ σ (xs.flatMap fun x => (f x.2).map (x.1, ·))
      (ys.flatMap fun x => (f x.2).map (x.1, ·)) := by
  obtain ⟨σ, hσ⟩ := exists_rearranges_of_perm h ((h.map _).nodup_iff.2 hnodup) f
  refine ⟨σ, .of_map ?_⟩
  simpa only [List.map_flatMap, List.flatMap_map, List.map_map, Function.comp_def, Prod.map,
    id_eq] using hσ

/-! ## Groups -/

theorem pairwise_zipIdx (l : List α) : l.zipIdx.Pairwise fun x y => x.2 < y.2 := by
  rw [← List.pairwise_map, List.zipIdx_map_snd]
  exact List.pairwise_lt_range'

/-- The entries of a group, with their places. -/
theorem Rearranges.filter_zipIdx [BEq κ] [LawfulBEq κ] [BEq κ'] [LawfulBEq κ'] {ρ : κ → κ'}
    {σ : Nat → Nat} {L : List (κ × α)} {L' : List (κ' × α)} (h : Rearranges ρ σ L L')
    (hρ : Function.Injective ρ) (k : κ) :
    L'.zipIdx.filter (·.1.1 == ρ k) =
      (L.zipIdx.filter (·.1.1 == k)).map (Prod.map (Prod.map ρ id) σ) := by
  have : Std.Antisymm fun x y : (κ' × α) × Nat => x.2 < y.2 :=
    ⟨fun _ _ hxy hyx => absurd hyx (Nat.lt_asymm hxy)⟩
  have : Std.Irrefl fun x y : (κ' × α) × Nat => x.2 < y.2 := ⟨fun _ => Nat.lt_irrefl _⟩
  refine List.Pairwise.eq_of_mem_iff ((pairwise_zipIdx L').filter _) (List.pairwise_map.2 ?_)
    fun x => ?_
  · refine ((pairwise_zipIdx L).filter _).imp_of_mem fun {x y} hx hy hlt => ?_
    obtain ⟨hx, hxk⟩ := List.mem_filter.1 hx
    obtain ⟨hy, hyk⟩ := List.mem_filter.1 hy
    exact h.lt_of_lt _ _ _ _ hlt (List.mem_zipIdx_iff_getElem?.1 hx)
      (List.mem_zipIdx_iff_getElem?.1 hy) ((eq_of_beq hxk).trans (eq_of_beq hyk).symm)
  · simp only [List.mem_map, List.mem_filter, List.mem_zipIdx_iff_getElem?, beq_iff_eq]
    constructor
    · rintro ⟨hx, hk⟩
      obtain ⟨i, hi⟩ := h.bijective.2 x.2
      rw [← hi, h.getElem?_eq] at hx
      obtain ⟨a, ha, hax⟩ := Option.map_eq_some_iff.1 hx
      refine ⟨(a, i), ⟨ha, hρ ?_⟩, Prod.ext hax hi⟩
      rw [← hk, ← hax]
      rfl
    · rintro ⟨⟨a, i⟩, ⟨ha, rfl⟩, rfl⟩
      refine ⟨?_, rfl⟩
      show L'[σ i]? = some (Prod.map ρ id a)
      rw [h.getElem?_eq, ha]
      rfl

/-- Corresponding groups of two lists have related entries, in the same order. -/
def SameByGroup (ρ : κ ≃ κ') (R : α → β → Prop) [BEq κ] [BEq κ'] (group : α → κ) (group' : β → κ')
    (l : List α) (l' : List β) : Prop :=
  ∀ k, List.Forall₂ R (l.filter (group · == k)) (l'.filter (group' · == ρ k))

/-- Lists that are made of entries in another order, where `place` and `place'` say of what. -/
theorem Rearranges.sameByGroup [BEq κ] [LawfulBEq κ] [BEq κ'] [LawfulBEq κ'] {ρ : κ ≃ κ'}
    {σ : Nat → Nat} {L : List (κ × α)} {L' : List (κ' × α)} (h : Rearranges ρ σ L L')
    {l : List γ} {l' : List δ} {place : γ → κ × α} {place' : δ → κ' × α} (hl : l.map place = L)
    (hl' : l'.map place' = L') {R : γ × Nat → δ × Nat → Prop}
    (hR : ∀ i a b, l[i]? = some a → l'[σ i]? = some b → place' b = Prod.map ρ id (place a) →
      R (a, i) (b, σ i)) :
    SameByGroup ρ R (fun x => (place x.1).1) (fun y => (place' y.1).1) l.zipIdx l'.zipIdx := by
  intro k
  have hplaces := h.filter_zipIdx ρ.injective k
  rw [← hl, ← hl', List.zipIdx_map, List.zipIdx_map, List.filter_map, List.filter_map,
    ← List.forall₂_eq_eq_eq, List.map_map, List.forall₂_map_left_iff,
    List.forall₂_map_right_iff] at hplaces
  refine List.forall₂_iff_zip.2 ⟨hplaces.length_eq.symm, fun {x y} hxy => ?_⟩
  obtain ⟨hx, hy⟩ := List.of_mem_zip hxy
  have heq := (List.forall₂_iff_zip.1 hplaces.flip).2 hxy
  have hindex : y.2 = σ x.2 := congrArg Prod.snd heq
  have hget := List.mem_zipIdx_iff_getElem?.1 (List.mem_filter.1 hy).1
  rw [hindex] at hget
  rw [show y = (y.1, σ x.2) from Prod.ext rfl hindex]
  exact hR x.2 x.1 y.1 (List.mem_zipIdx_iff_getElem?.1 (List.mem_filter.1 hx).1) hget
    (congrArg Prod.fst heq)

namespace SameByGroup

variable [BEq κ] [BEq κ'] {ρ : κ ≃ κ'} {R : α → β → Prop} {group : α → κ} {group' : β → κ'}
  {l : List α} {l' : List β}

theorem flip (h : SameByGroup ρ R group group' l l') :
    SameByGroup ρ.symm (fun b a => R a b) group' group l' l := by
  intro k
  have hk := h (ρ.symm k)
  rw [ρ.apply_symm_apply] at hk
  exact hk.flip

theorem filter (h : SameByGroup ρ R group group' l l') {p : α → Bool} {q : β → Bool}
    (hpq : ∀ a b, R a b → p a = q b) :
    SameByGroup ρ R group group' (l.filter p) (l'.filter q) := by
  intro k
  rw [List.filter_comm _ p, List.filter_comm _ q]
  exact List.rel_filter (fun a b hab => Bool.eq_iff_iff.1 (hpq a b hab)) (h k)

/-- The first entry of a group with a property. -/
theorem rel_find? (h : SameByGroup ρ R group group' l l') (k : κ) {p : α → Bool} {q : β → Bool}
    (hpq : ∀ a b, R a b → p a = q b) :
    Option.Rel R (l.find? fun a => group a == k && p a)
      (l'.find? fun b => group' b == ρ k && q b) := by
  rw [← List.head?_filter, ← List.head?_filter, ← List.filter_filter, ← List.filter_filter]
  exact rel_head? (h.filter hpq k)

theorem filterMap {place : γ → κ} {place' : δ → κ'} {S : γ → δ → Prop}
    (h : SameByGroup ρ R group group' l l') {f : α → Option γ} {g : β → Option δ}
    (hfg : ∀ a b, R a b → Option.Rel S (f a) (g b)) (hf : ∀ a, ∀ c ∈ f a, place c = group a)
    (hg : ∀ b, ∀ d ∈ g b, place' d = group' b) :
    SameByGroup ρ S place place' (l.filterMap f) (l'.filterMap g) := by
  have hfilter {α γ κ : Type} [BEq κ] {group : α → κ} {group' : γ → κ} {f : α → Option γ}
      (hf : ∀ a, ∀ c ∈ f a, group' c = group a) (k : κ) (l : List α) :
      (l.filterMap f).filter (group' · == k) = (l.filter (group · == k)).filterMap f := by
    rw [List.filter_filterMap, List.filterMap_filter]
    refine List.filterMap_congr fun a _ => ?_
    cases hc : f a with
    | none => simp
    | some c => simp [Option.filter, hf a c hc]
  intro k
  rw [hfilter hf, hfilter hg]
  exact List.rel_filterMap (fun a b hab => hfg a b hab) (h k)

theorem reverse (h : SameByGroup ρ R group group' l l') :
    SameByGroup ρ R group group' l.reverse l'.reverse := by
  intro k
  rw [List.filter_reverse, List.filter_reverse]
  exact List.forall₂_reverse_iff.2 (h k)

theorem exists_of_mem [LawfulBEq κ] [LawfulBEq κ'] (h : SameByGroup ρ R group group' l l') {b : β}
    (hb : b ∈ l') : ∃ a ∈ l, group' b = ρ (group a) := by
  have hgroup := h (ρ.symm (group' b))
  rw [ρ.apply_symm_apply] at hgroup
  have hmem : b ∈ l'.filter (group' · == group' b) := List.mem_filter.2 ⟨hb, beq_self_eq_true _⟩
  cases hl : l.filter (group · == ρ.symm (group' b)) with
  | nil =>
    rw [hl, List.forall₂_nil_left_iff] at hgroup
    rw [hgroup] at hmem
    cases hmem
  | cons a as =>
    obtain ⟨ha, heq⟩ := List.mem_filter.1 (hl ▸ List.mem_cons_self : a ∈ l.filter _)
    exact ⟨a, ha, by rw [eq_of_beq heq, ρ.apply_symm_apply]⟩

/-- Lists whose entries all belong to one group are related as they are. -/
theorem forall₂ [LawfulBEq κ] [LawfulBEq κ'] (h : SameByGroup ρ R group group' l l')
    (hone : ∀ a ∈ l, ∀ b ∈ l, group a = group b) : List.Forall₂ R l l' := by
  cases hl : l with
  | nil =>
    subst hl
    rw [List.forall₂_nil_left_iff, List.eq_nil_iff_forall_not_mem]
    rintro b hb
    obtain ⟨a, ha, -⟩ := h.exists_of_mem hb
    cases ha
  | cons a as =>
    rw [← hl]
    have ha : a ∈ l := hl ▸ List.mem_cons_self
    have hgroup := h (group a)
    rwa [List.filter_eq_self.2 fun b hb => by simp [hone b hb a ha],
      List.filter_eq_self.2 fun b hb => ?_] at hgroup
    obtain ⟨c, hc, heq⟩ := h.exists_of_mem hb
    simp [heq, hone c hc a ha]

/-- Where one list has a single entry, so has the other. -/
theorem exists_singleton [LawfulBEq κ] [LawfulBEq κ'] (h : SameByGroup ρ R group group' l l') {a : α}
    (hl : l = [a]) : ∃ b, l' = [b] ∧ R a b := by
  subst hl
  obtain ⟨b, _, hab, hnil, rfl⟩ := List.forall₂_cons_left_iff.1 (h.forall₂ (by simp))
  exact ⟨b, by rw [List.forall₂_nil_left_iff.1 hnil], hab⟩

end SameByGroup

namespace SameByGroup

variable [BEq κ] [BEq κ'] {ρ : κ ≃ κ'} {group : α → κ} {group' : β → κ'} {l : List α} {l' : List β}
  {g : α → β}

theorem of_filter_eq
    (h : ∀ k, l'.filter (group' · == ρ k) = (l.filter (group · == k)).map g) :
    SameByGroup ρ (fun a b => g a = b) group group' l l' := by
  intro k
  rw [h, List.forall₂_map_right_iff, List.forall₂_same]
  exact fun _ _ => rfl

theorem filter_eq (h : SameByGroup ρ (fun a b => g a = b) group group' l l') (k : κ) :
    l'.filter (group' · == ρ k) = (l.filter (group · == k)).map g := by
  rw [← List.forall₂_eq_eq_eq]
  exact (List.forall₂_map_left_iff.2 (h k)).flip.imp fun _ _ => Eq.symm

/-- The entries of all groups are the same in some order. -/
theorem perm [LawfulBEq κ] [LawfulBEq κ']
    (h : SameByGroup ρ (fun a b => g a = b) group group' l l')
    (hg : ∀ a, group' (g a) = ρ (group a)) : (l.map g).Perm l' := by
  classical
  refine List.perm_iff_count.2 fun b => ?_
  have hgroup := h.filter_eq (ρ.symm (group' b))
  rw [ρ.apply_symm_apply] at hgroup
  have hkeep : (l.map g).filter (group' · == group' b) =
      (l.filter (group · == ρ.symm (group' b))).map g := by
    rw [List.filter_map]
    congr 1
    refine List.filter_congr fun a _ => ?_
    rw [Function.comp_apply, hg, Bool.eq_iff_iff, beq_iff_eq, beq_iff_eq, ρ.eq_symm_apply]
  rw [← List.count_filter (l := l.map g) (p := (group' · == group' b)) (beq_self_eq_true _), hkeep,
    ← hgroup, List.count_filter (p := (group' · == group' b)) (beq_self_eq_true _)]

end SameByGroup

/-- The first entry of a group if there is one, otherwise the only entry of all. -/
def pick? [BEq κ] (group : α → κ) (k : κ) (l : List α) : Option α :=
  match l.find? (group · == k) with
  | some a => some a
  | none =>
    match l with
    | [a] => some a
    | _ => none

theorem SameByGroup.rel_pick? [BEq κ] [LawfulBEq κ] [BEq κ'] [LawfulBEq κ'] {ρ : κ ≃ κ'}
    {R : α → β → Prop} {group : α → κ} {group' : β → κ'} {l : List α} {l' : List β}
    (h : SameByGroup ρ R group group' l l') (k : κ) :
    Option.Rel R (pick? group k l) (pick? group' (ρ k) l') := by
  have hfirst := h.rel_find? k (p := fun _ => true) (q := fun _ => true) fun _ _ _ => rfl
  simp only [Bool.and_true] at hfirst
  unfold pick?
  generalize l.find? _ = x at hfirst
  generalize l'.find? _ = y at hfirst
  cases hfirst with
  | some hab => exact .some hab
  | none =>
    dsimp only
    split
    · obtain ⟨b, rfl, hab⟩ := h.exists_singleton rfl
      exact .some hab
    · next hl =>
      split
      · obtain ⟨a, rfl, -⟩ := h.flip.exists_singleton rfl
        exact absurd rfl (hl a)
      · exact .none

/-! ## Sorting -/

theorem filter_append_left {p : α → Bool} {l m : List α} (hl : ∀ a ∈ l, p a = true)
    (hm : ∀ a ∈ m, p a = false) : (l ++ m).filter p = l := by
  rw [List.filter_append, List.filter_eq_self.2 hl, List.filter_eq_nil_iff.2 (by simpa using hm),
    List.append_nil]

/-- A part of a list is sorted in the list as it is by itself. -/
theorem filter_mergeSort {le : α → α → Bool}
    (trans : ∀ a b c, le a b = true → le b c = true → le a c = true)
    (total : ∀ a b, (le a b || le b a) = true) (p : α → Bool) (l : List α) :
    (l.mergeSort le).filter p = (l.filter p).mergeSort le := by
  induction l with
  | nil => simp
  | cons a l ih =>
    obtain ⟨l₁, l₂, hcons, hrest, hbefore⟩ := List.mergeSort_cons trans total a l
    have hsorted := List.pairwise_mergeSort trans total (a :: l)
    rw [hcons, List.pairwise_append, List.pairwise_cons] at hsorted
    rw [hrest, List.filter_append] at ih
    rw [hcons, List.filter_append, List.filter_cons, List.filter_cons]
    split
    · obtain ⟨m₁, m₂, hcons', hrest', hbefore'⟩ :=
        List.mergeSort_cons trans total a (l.filter p)
      have hsorted' := List.pairwise_mergeSort trans total (a :: l.filter p)
      rw [hcons', List.pairwise_append, List.pairwise_cons] at hsorted'
      rw [← ih] at hrest'
      -- What is not above `a` stands in front of it in both lists.
      have hcut : l₁.filter p = m₁ := by
        rw [← filter_append_left (p := fun b => !le a b) (l := l₁.filter p) (m := l₂.filter p)
          (fun b hb => hbefore b (List.mem_filter.1 hb).1)
          (fun b hb => by simp [hsorted.2.1.1 b (List.mem_filter.1 hb).1]), hrest']
        exact filter_append_left hbefore' fun b hb => by simp [hsorted'.2.1.1 b hb]
      rw [hcut] at hrest' ⊢
      rw [hcons', List.append_cancel_left hrest']
    · exact ih

end Reshape
