import Mathlib

/-!
# Lists in step

Facts about two lists that are related element by element, about prefixes and about positions.

* `exists_right_of_forall₂`, `exists_left_of_forall₂`: the partner of an element;
  `exists_forall₂`: partners for all elements.
* `forall₂_getElem?`: partners stand at the same position.
* `forall₂_iff_of_forall₂`: a relation between partners as a property of the first ones.
* `exists_mem_iff_of_forall₂`: a property of partners that some element has.
* `forall₂_imp_mem`: weakening a relation between partners that are in their lists.
* `pairwise_of_forall₂`: partners of elements in order.
* `map_eq_of_forall₂`: partners that agree under two functions; `filterMap_subset_of_forall₂`,
  `flatMap_subset_of_forall₂`, `sum_map_le_of_forall₂`: partners of which the second one gives
  at least what the first one gives; `forall₂_filter`: partners
  that pass the same test; `forall₂_join`: partners of one element.
* `prefix_filterMap_concat`, `prefix_flatMap_concat`: where the last element of a prefix
  of a filtered list, or of concatenated lists, comes from.
* `exists_sublist_of_forall₂`, `index_eq_of_nodup_flatten`: elements of a list of entries.
* `OccursAt`: a window of a list.
* `count_flatMap_getElem?_le`: reading distinct positions of a list reads nothing twice.
-/

namespace Tx3Lift.Lib

variable {α β γ : Type} {R : α → β → Prop} {xs : List α} {ys : List β}

theorem exists_right_of_forall₂ (h : List.Forall₂ R xs ys) {x : α} (hx : x ∈ xs) :
    ∃ y ∈ ys, R x y := by
  induction h with
  | nil => simp at hx
  | cons hr _ ih =>
    rcases List.mem_cons.mp hx with rfl | hx
    · exact ⟨_, List.mem_cons_self, hr⟩
    · obtain ⟨y, hy, hxy⟩ := ih hx
      exact ⟨y, List.mem_cons_of_mem _ hy, hxy⟩

theorem exists_left_of_forall₂ (h : List.Forall₂ R xs ys) {y : β} (hy : y ∈ ys) :
    ∃ x ∈ xs, R x y :=
  exists_right_of_forall₂ h.flip hy

theorem exists_forall₂ (h : ∀ y ∈ ys, ∃ x, R x y) : ∃ xs, List.Forall₂ R xs ys := by
  induction ys with
  | nil => exact ⟨[], List.Forall₂.nil⟩
  | cons y ys ih =>
    obtain ⟨x, hx⟩ := h y (by simp)
    obtain ⟨xs, hxs⟩ := ih fun y hy => h y (List.mem_cons_of_mem _ hy)
    exact ⟨x :: xs, List.Forall₂.cons hx hxs⟩

theorem forall₂_getElem? (h : List.Forall₂ R xs ys) {k : ℕ} {x : α} {y : β}
    (hx : xs[k]? = some x) (hy : ys[k]? = some y) : R x y := by
  induction h generalizing k with
  | nil => simp at hx
  | cons hr _ ih =>
    cases k with
    | zero =>
      cases Option.some.inj hx
      cases Option.some.inj hy
      exact hr
    | succ k => exact ih hx hy

/-- A relation between partners that only depends on the first one. -/
theorem forall₂_iff_of_forall₂ {S : α → β → Prop} {T : α → Prop} (h : List.Forall₂ R xs ys)
    (hST : ∀ x y, R x y → (S x y ↔ T x)) : List.Forall₂ S xs ys ↔ ∀ x ∈ xs, T x := by
  induction h with
  | nil => simp
  | cons hr _ ih => rw [List.forall₂_cons, List.forall_mem_cons, hST _ _ hr, ih]

theorem exists_mem_iff_of_forall₂ {p : α → Prop} {q : β → Prop} (h : List.Forall₂ R xs ys)
    (hpq : ∀ x y, R x y → (p x ↔ q y)) : (∃ x ∈ xs, p x) ↔ ∃ y ∈ ys, q y := by
  induction h with
  | nil => simp
  | cons hxy _ ih => simp only [List.mem_cons, exists_eq_or_imp, hpq _ _ hxy, ih]

theorem forall₂_imp_mem {S : α → β → Prop} (h : List.Forall₂ R xs ys)
    (hS : ∀ x y, x ∈ xs → y ∈ ys → R x y → S x y) : List.Forall₂ S xs ys := by
  induction h with
  | nil => exact List.Forall₂.nil
  | cons hr _ ih =>
    exact List.Forall₂.cons (hS _ _ (by simp) (by simp) hr)
      (ih fun x y hx hy => hS x y (List.mem_cons_of_mem _ hx) (List.mem_cons_of_mem _ hy))

/-- What holds between elements in order holds between their partners. -/
theorem pairwise_of_forall₂ {S : β → β → Prop} {T : α → α → Prop} (h : List.Forall₂ R xs ys)
    (hys : ys.Pairwise S)
    (hT : ∀ x x' y y', x ∈ xs → x' ∈ xs → R x y → R x' y' → S y y' → T x x') : xs.Pairwise T := by
  induction h with
  | nil => exact List.Pairwise.nil
  | cons hr hrs ih =>
    obtain ⟨hy, hys⟩ := List.pairwise_cons.mp hys
    refine List.pairwise_cons.mpr ⟨fun x' hx' => ?_, ih hys fun x x' y y' hx hx' =>
      hT x x' y y' (List.mem_cons_of_mem _ hx) (List.mem_cons_of_mem _ hx')⟩
    obtain ⟨y', hy', hr'⟩ := exists_right_of_forall₂ hrs hx'
    exact hT _ _ _ _ List.mem_cons_self (List.mem_cons_of_mem _ hx') hr hr' (hy y' hy')

theorem map_eq_of_forall₂ {f : α → γ} {g : β → γ} (h : List.Forall₂ R xs ys)
    (hfg : ∀ x y, x ∈ xs → R x y → g y = f x) : ys.map g = xs.map f := by
  induction h with
  | nil => rfl
  | cons hr _ ih =>
    rw [List.map_cons, List.map_cons, hfg _ _ (by simp) hr,
      ih fun x y hx => hfg x y (List.mem_cons_of_mem _ hx)]

theorem filterMap_subset_of_forall₂ {f : α → Option γ} {g : β → Option γ}
    (h : List.Forall₂ R xs ys) (hfg : ∀ x y, R x y → ∀ c, f x = some c → g y = some c) :
    xs.filterMap f ⊆ ys.filterMap g := by
  intro c hc
  obtain ⟨x, hx, hxc⟩ := List.mem_filterMap.mp hc
  obtain ⟨y, hy, hr⟩ := exists_right_of_forall₂ h hx
  exact List.mem_filterMap.mpr ⟨y, hy, hfg x y hr c hxc⟩

theorem flatMap_subset_of_forall₂ {f : α → List γ} {g : β → List γ} (h : List.Forall₂ R xs ys)
    (hfg : ∀ x y, R x y → f x ⊆ g y) : xs.flatMap f ⊆ ys.flatMap g := by
  intro c hc
  obtain ⟨x, hx, hxc⟩ := List.mem_flatMap.mp hc
  obtain ⟨y, hy, hr⟩ := exists_right_of_forall₂ h hx
  exact List.mem_flatMap.mpr ⟨y, hy, hfg x y hr hxc⟩

theorem sum_map_le_of_forall₂ {f : α → ℕ} {g : β → ℕ} (h : List.Forall₂ R xs ys)
    (hfg : ∀ x y, R x y → f x ≤ g y) : (xs.map f).sum ≤ (ys.map g).sum := by
  refine List.Forall₂.sum_le_sum ?_
  rw [List.forall₂_map_left_iff, List.forall₂_map_right_iff]
  exact h.imp hfg

/-- One element of every entry that `p` picks, in the order of the entries. -/
theorem exists_sublist_of_forall₂ {p : α → Bool} {Good : γ → Prop} {xs : List α}
    {ys : List (List γ)}
    (h : List.Forall₂ (fun x ys => p x = true → ∃ y, ys = [y] ∧ Good y) xs ys) :
    ∃ zs : List γ, zs.Sublist ys.flatten ∧ zs.length = xs.countP p ∧ ∀ z ∈ zs, Good z := by
  induction h with
  | nil => exact ⟨[], List.Sublist.refl _, rfl, by simp⟩
  | @cons x y xs ys hx _ ih =>
    obtain ⟨zs, hsub, hlen, hgood⟩ := ih
    cases hp : p x with
    | false =>
      exact ⟨zs, hsub.trans (List.sublist_append_right _ _), by simp [hlen, hp], hgood⟩
    | true =>
      obtain ⟨z, rfl, hz⟩ := hx hp
      refine ⟨z :: zs, hsub.cons_cons z, by simp [hlen, hp], fun z' hz' => ?_⟩
      rcases List.mem_cons.mp hz' with rfl | hz'
      · exact hz
      · exact hgood z' hz'

/-- Where nothing occurs twice in the entries, an element is in one entry only. -/
theorem index_eq_of_nodup_flatten {yss : List (List β)} (h : yss.flatten.Nodup) {k l : ℕ}
    {ys zs : List β} (hk : yss[k]? = some ys) (hl : yss[l]? = some zs) {y : β} (hy : y ∈ ys)
    (hz : y ∈ zs) : k = l := by
  obtain ⟨-, hpair⟩ := List.nodup_flatten.mp h
  rw [List.pairwise_iff_getElem] at hpair
  obtain ⟨hklt, rfl⟩ := List.getElem?_eq_some_iff.mp hk
  obtain ⟨hllt, rfl⟩ := List.getElem?_eq_some_iff.mp hl
  rcases lt_trichotomy k l with hlt | heq | hlt
  · exact absurd hz (hpair k l hklt hllt hlt hy)
  · exact heq
  · exact absurd hy (hpair l k hllt hklt hlt hz)

theorem forall₂_filter {p : α → Bool} {q : β → Bool} (h : List.Forall₂ R xs ys)
    (hpq : ∀ x y, x ∈ xs → R x y → p x = q y) : List.Forall₂ R (xs.filter p) (ys.filter q) := by
  induction h with
  | nil => exact List.Forall₂.nil
  | @cons x y xs ys hr _ ih =>
    have htail := ih fun a b ha => hpq a b (List.mem_cons_of_mem _ ha)
    have hhead := hpq x y (by simp) hr
    cases hq : q y with
    | true => simpa [hhead, hq] using ⟨hr, htail⟩
    | false => simpa [hhead, hq] using htail

theorem forall₂_join {S : α → γ → Prop} {zs : List γ} (h : List.Forall₂ R xs ys)
    (h' : List.Forall₂ S xs zs) : List.Forall₂ (fun y z => ∃ x ∈ xs, R x y ∧ S x z) ys zs := by
  induction h generalizing zs with
  | nil =>
    cases h'
    exact List.Forall₂.nil
  | cons hr _ ih =>
    obtain ⟨z, zs, hs, htail, rfl⟩ := List.forall₂_cons_left_iff.mp h'
    refine List.Forall₂.cons ⟨_, by simp, hr, hs⟩ ((ih htail).imp ?_)
    rintro y z ⟨x, hx, hr, hs⟩
    exact ⟨x, List.mem_cons_of_mem _ hx, hr, hs⟩

theorem prefix_filterMap_concat {f : α → Option β} {p : List β} {b : β}
    (h : p ++ [b] <+: xs.filterMap f) :
    ∃ pre a, pre ++ [a] <+: xs ∧ pre.filterMap f = p ∧ f a = some b := by
  induction xs using List.reverseRecOn with
  | nil => simp at h
  | append_singleton xs x ih =>
    have hold : p ++ [b] <+: xs.filterMap f →
        ∃ pre a, pre ++ [a] <+: xs ++ [x] ∧ pre.filterMap f = p ∧ f a = some b := fun h => by
      obtain ⟨pre, a, hpre, hp, ha⟩ := ih h
      exact ⟨pre, a, hpre.trans (List.prefix_append _ _), hp, ha⟩
    rw [List.filterMap_append] at h
    cases hx : f x with
    | none => exact hold (by simpa [hx] using h)
    | some c =>
      rw [List.filterMap_cons_some hx, List.filterMap_nil] at h
      rcases List.prefix_concat_iff.mp h with heq | h
      · obtain ⟨hp, hc⟩ := List.append_inj' heq rfl
        exact ⟨xs, x, List.prefix_rfl, hp.symm, by rw [hx, List.singleton_inj.mp hc]⟩
      · exact hold h

theorem prefix_flatMap_concat {f : α → List β} {p : List β} {b : β}
    (h : p ++ [b] <+: xs.flatMap f) :
    ∃ before x after part, xs = before ++ x :: after ∧ p = before.flatMap f ++ part ∧
      part ++ [b] <+: f x := by
  induction xs generalizing p with
  | nil => simp at h
  | cons x xs ih =>
    rw [List.flatMap_cons] at h
    by_cases hlen : (p ++ [b]).length ≤ (f x).length
    · exact ⟨[], x, xs, p, rfl, rfl,
        List.prefix_of_prefix_length_le h (List.prefix_append _ _) hlen⟩
    · have hfx : f x <+: p := by
        refine List.prefix_of_prefix_length_le (List.prefix_append _ _)
          ((List.prefix_append p [b]).trans h) ?_
        rw [List.length_append, List.length_singleton] at hlen
        omega
      obtain ⟨p', rfl⟩ := hfx
      rw [List.append_assoc, List.prefix_append_right_inj] at h
      obtain ⟨before, y, after, part, rfl, rfl, hpart⟩ := ih h
      exact ⟨x :: before, y, after, part, rfl, by simp, hpart⟩

/-- `xs` is the window of `ys` at this offset. -/
def OccursAt (xs ys : List α) (offset : ℕ) : Prop :=
  ∃ before after, before.length = offset ∧ ys = before ++ xs ++ after

theorem infix_iff_exists_occursAt {xs ys : List α} :
    xs <:+: ys ↔ ∃ offset, OccursAt xs ys offset := by
  constructor
  · rintro ⟨before, after, rfl⟩
    exact ⟨before.length, before, after, rfl, rfl⟩
  · rintro ⟨_, before, after, -, rfl⟩
    exact ⟨before, after, rfl⟩

/-- The window of known length after a known beginning. -/
theorem occursAt_append_iff {xs ys : List α} (hlen : xs.length = ys.length)
    (before after : List α) : OccursAt xs (before ++ ys ++ after) before.length ↔ xs = ys := by
  constructor
  · rintro ⟨before', after', hbefore, hsame⟩
    rw [List.append_assoc, List.append_assoc] at hsame
    have hrest := (List.append_inj hsame hbefore.symm).2
    exact (List.append_inj hrest hlen.symm).1.symm
  · rintro rfl
    exact ⟨before, after, rfl, rfl⟩

theorem flatMap_range_getElem? (xs : List α) (f : α → List β) :
    ((List.range xs.length).flatMap fun s => (xs[s]?.map f).getD []) = xs.flatMap f := by
  induction xs with
  | nil => rfl
  | cons x xs ih =>
    rw [List.length_cons, List.range_succ_eq_map, List.flatMap_cons, List.flatMap_map,
      List.flatMap_cons, ← ih]
    rfl

/-- Reading distinct positions of a list reads nothing twice. -/
theorem count_flatMap_getElem?_le [BEq β] {slots : List ℕ} (hnodup : slots.Nodup)
    (xs : List α) (f : α → List β) (b : β) :
    (slots.flatMap fun s => (xs[s]?.map f).getD []).count b ≤ (xs.flatMap f).count b := by
  have hsub : (slots.filter fun s => decide (s < xs.length)).Subperm (List.range xs.length) :=
    List.subperm_of_subset (hnodup.filter _) fun s hs => by simpa using (List.mem_filter.mp hs).2
  have hdrop : (slots.flatMap fun s => (xs[s]?.map f).getD []) =
      (slots.filter fun s => decide (s < xs.length)).flatMap fun s => (xs[s]?.map f).getD [] := by
    clear hnodup hsub
    induction slots with
    | nil => rfl
    | cons s slots ih =>
      rw [List.flatMap_cons, ih, List.filter_cons]
      by_cases hs : s < xs.length
      · simp [hs]
      · simp [hs]
  obtain ⟨slots', hperm, hsublist⟩ := hsub
  rw [hdrop, ← flatMap_range_getElem? xs f, ← (hperm.flatMap_right _).count_eq]
  exact (hsublist.flatMap _).count_le b

/-- A loop whose steps are injective is. -/
theorem foldl_injective {σ ε : Type} {step : σ → ε → σ}
    (hstep : ∀ e, Function.Injective fun s => step s e) :
    ∀ es : List ε, Function.Injective fun s => es.foldl step s
  | [] => fun _ _ h => h
  | e :: es => fun _ _ h => hstep e (foldl_injective hstep es h)

end Tx3Lift.Lib
