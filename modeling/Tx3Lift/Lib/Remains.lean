import Tx3Lift.Lib.Requests

/-!
# What requests leave

What a list of requests leaves depends on who comes first, and there is no short formula for
it. This module has bounds, and the cases in which they are exact.

* `countP_le_leaveAll`, `countP_leaveAll`: how many elements of a kind are left.
* `filter_leaveAll_sublist`, `filter_leaveAll_eq`: which of them may be left, and which are.
* `Stays.step`, `Stays.steps`: when an element is still there after a request that accepts it,
  and after requests that do not.
-/

namespace Tx3Lift.Lib

variable {α : Type}

/-! ## How many are left -/

/-- The request accepts an element of `xs` that passes `p`. -/
def Request.touches (xs : List α) (p : α → Bool) (r : Request α) : Bool :=
  xs.any fun x => p x && r.test x

section Count

variable {reqs : List (Request α)} {xs left : List α} {p : α → Bool} {r : Request α}

theorem give_append_leave (r : Request α) (left : List α) :
    (r.give left ++ r.leave left).Perm left := by
  unfold Request.give Request.leave
  split_ifs
  · exact find?_toList_append_eraseP r.test left
  · exact List.filter_append_perm r.test left

theorem test_of_mem_give {x : α} (h : x ∈ r.give left) : x ∈ left ∧ r.test x = true := by
  unfold Request.give at h
  split_ifs at h
  · rw [Option.mem_toList] at h
    exact ⟨List.mem_of_find?_eq_some h, List.find?_some h⟩
  · exact List.mem_filter.mp h

theorem countP_give_add_leave (p : α → Bool) (r : Request α) (left : List α) :
    (r.give left).countP p + (r.leave left).countP p = left.countP p := by
  rw [← List.countP_append, (give_append_leave r left).countP_eq]

/-- A request that touches none of a kind gives out none of it. -/
theorem countP_give_eq_zero (hsub : left ⊆ xs) (h : r.touches xs p = false) :
    (r.give left).countP p = 0 := by
  rw [List.countP_eq_zero]
  intro x hx hp
  obtain ⟨hleft, htest⟩ := test_of_mem_give hx
  have hany : r.touches xs p = true := List.any_eq_true.mpr ⟨x, hsub hleft, by simp [hp, htest]⟩
  rw [h] at hany
  cases hany

theorem countP_give_le_one (honce : r.once = true) : (r.give left).countP p ≤ 1 := by
  rw [Request.give, if_pos honce]
  refine List.countP_le_length.trans ?_
  cases left.find? r.test <;> simp

/-- **At most one of a kind goes to each request for one element.** -/
theorem countP_le_leaveAll (hall : ∀ r ∈ reqs, r.once = false → r.touches xs p = false) :
    xs.countP p ≤
      (leaveAll reqs xs).countP p + reqs.countP fun r => r.once && r.touches xs p := by
  induction reqs using List.reverseRecOn with
  | nil => exact Nat.le_add_right _ _
  | append_singleton reqs r ih =>
    have hreqs := ih fun r' hr' => hall r' (List.mem_append_left _ hr')
    have hsplit := countP_give_add_leave p r (leaveAll reqs xs)
    rw [leaveAll_concat, List.countP_append, List.countP_singleton]
    cases htouch : r.touches xs p with
    | false =>
      have hzero := countP_give_eq_zero (leaveAll_sublist reqs xs).subset htouch
      simp only [Bool.and_false, Bool.false_eq_true, if_false]
      omega
    | true =>
      have honce : r.once = true := by
        by_contra hnot
        have hno := hall r (by simp) (by simpa using hnot)
        simp [htouch] at hno
      have hone : (r.give (leaveAll reqs xs)).countP p ≤ 1 := countP_give_le_one honce
      simp only [honce, Bool.and_true, if_true]
      omega

/-- If each of them is served and accepts nothing else, exactly one goes to each. -/
theorem countP_leaveAll (hserved : Served Request.once reqs xs)
    (hall : ∀ r ∈ reqs, r.once = false → r.touches xs p = false)
    (honly : ∀ r ∈ reqs, r.once = true → r.touches xs p = true → ∀ x ∈ xs, r.test x = true →
      p x = true) :
    xs.countP p =
      (leaveAll reqs xs).countP p + reqs.countP fun r => r.once && r.touches xs p := by
  induction reqs using List.reverseRecOn with
  | nil => rfl
  | append_singleton reqs r ih =>
    obtain ⟨hserved, hfound⟩ := served_concat.mp hserved
    have hreqs := ih hserved (fun r' hr' => hall r' (List.mem_append_left _ hr'))
      fun r' hr' => honly r' (List.mem_append_left _ hr')
    have hsplit := countP_give_add_leave p r (leaveAll reqs xs)
    have hsub := (leaveAll_sublist reqs xs).subset
    rw [leaveAll_concat, List.countP_append, List.countP_singleton]
    cases htouch : r.touches xs p with
    | false =>
      have hzero := countP_give_eq_zero hsub htouch
      simp only [Bool.and_false, Bool.false_eq_true, if_false]
      omega
    | true =>
      have honce : r.once = true := by
        by_contra hnot
        have hno := hall r (by simp) (by simpa using hnot)
        simp [htouch] at hno
      -- what it finds passes `p`
      obtain ⟨x, hx⟩ := Option.isSome_iff_exists.mp (List.find?_isSome.mpr (hfound honce))
      have hp := honly r (by simp) honce htouch x (hsub (List.mem_of_find?_eq_some hx))
        (List.find?_some hx)
      have hgive : (r.give (leaveAll reqs xs)).countP p = 1 := by
        rw [Request.give, if_pos honce, hx]
        simp [hp]
      simp only [honce, Bool.and_true, if_true]
      omega

end Count

/-! ## Which are left -/

/-- The request must take `x`: nothing else in `xs` passes its test. -/
def Request.pins (xs : List α) (r : Request α) (x : α) : Bool :=
  r.must && r.once && r.test x && decide (xs.countP r.test = 1)

/-- The request accepts the same elements of `xs` as the test `q`. -/
def Request.like (xs : List α) (q : α → Bool) (r : Request α) : Bool :=
  xs.all fun x => r.test x == q x

/-- The elements that pass `q` and that no request pins. -/
def unpinned (xs : List α) (reqs : List (Request α)) (q : α → Bool) : List α :=
  xs.filter fun x => q x && !reqs.any fun r => r.pins xs x

/-- How many requests take one element of those that pass `q`, in their order. -/
def rivals (xs : List α) (reqs : List (Request α)) (q : α → Bool) : ℕ :=
  reqs.countP fun r => r.once && !r.must && r.like xs q

/-- The elements that pass `q` and that the requests may leave. -/
def remains (xs : List α) (reqs : List (Request α)) (q : α → Bool) : List α :=
  ((unpinned xs reqs q).drop (rivals xs reqs q)).filter fun x =>
    reqs.all fun r => r.once || !r.test x

section Which

variable {reqs : List (Request α)} {xs left : List α} {q t : α → Bool} {r : Request α}

theorem filter_leave_like (honce : r.once = true) (hlike : ∀ x ∈ left, r.test x = q x) :
    (r.leave left).filter q = (left.filter q).drop 1 := by
  rw [Request.leave, if_pos honce]
  induction left with
  | nil => rfl
  | cons x left ih =>
    have hx := hlike x List.mem_cons_self
    cases hq : q x with
    | true =>
      rw [List.eraseP_cons_of_pos (hx.trans hq), List.filter_cons_of_pos hq]
      rfl
    | false =>
      have hnot : ¬q x = true := by simp [hq]
      rw [List.eraseP_cons_of_neg (by rwa [hx]), List.filter_cons_of_neg hnot,
        List.filter_cons_of_neg hnot]
      exact ih fun y hy => hlike y (List.mem_cons_of_mem x hy)

theorem filter_leave_apart (hapart : ∀ x ∈ left, r.test x = true → q x = false) :
    (r.leave left).filter q = left.filter q := by
  unfold Request.leave
  split_ifs
  · induction left with
    | nil => rfl
    | cons x left ih =>
      have hleft := ih fun y hy => hapart y (List.mem_cons_of_mem x hy)
      by_cases hx : r.test x = true
      · have hq := hapart x List.mem_cons_self hx
        rw [List.eraseP_cons_of_pos hx, List.filter_cons_of_neg (by simp [hq])]
      · rw [List.eraseP_cons_of_neg hx, List.filter_cons, List.filter_cons, hleft]
  · rw [List.filter_filter]
    refine List.filter_congr fun x hx => ?_
    cases htest : r.test x with
    | true => simp [hapart x hx htest]
    | false => simp

theorem eraseP_eq_filter (h : left.countP t ≤ 1) :
    left.eraseP t = left.filter fun x => !t x := by
  induction left with
  | nil => rfl
  | cons x left ih =>
    by_cases hx : t x = true
    · rw [List.countP_cons_of_pos hx] at h
      have hnone : ∀ y ∈ left, ¬t y = true := List.countP_eq_zero.mp (by omega)
      rw [List.eraseP_cons_of_pos hx, List.filter_cons_of_neg (by simp [hx]), eq_comm,
        List.filter_eq_self]
      intro y hy
      simpa using hnone y hy
    · rw [List.countP_cons_of_neg hx] at h
      rw [List.eraseP_cons_of_neg hx, List.filter_cons_of_pos (by simpa using hx), ih h]

theorem find?_eraseP (h : ∀ x ∈ xs, t x = true → q x = false) :
    (xs.eraseP t).find? q = xs.find? q := by
  induction xs with
  | nil => rfl
  | cons x xs ih =>
    have hxs := ih fun y hy => h y (List.mem_cons_of_mem x hy)
    by_cases ht : t x = true
    · rw [List.eraseP_cons_of_pos ht, List.find?_cons_of_neg (by simp [h x List.mem_cons_self ht])]
    · rw [List.eraseP_cons_of_neg ht, List.find?_cons, List.find?_cons, hxs]

theorem filter_leave_pin (honce : r.once = true) (h : left.countP r.test ≤ 1) :
    (r.leave left).filter q = (left.filter q).filter fun x => !r.test x := by
  rw [Request.leave, if_pos honce, eraseP_eq_filter h, List.filter_filter, List.filter_filter]
  exact List.filter_congr fun x _ => Bool.and_comm _ _

/-- Filtering and dropping exchange if nothing that is filtered out is dropped. -/
theorem drop_filter {m : ℕ} (h : left.countP t ≤ (left.drop m).countP t) :
    (left.drop m).filter (fun x => !t x) = (left.filter fun x => !t x).drop m := by
  have hsplit : left.countP t = (left.take m).countP t + (left.drop m).countP t := by
    rw [← List.countP_append, List.take_append_drop]
  have hkeep : (left.take m).filter (fun x => !t x) = left.take m := by
    rw [List.filter_eq_self]
    intro x hx
    simpa using List.countP_eq_zero.mp (show (left.take m).countP t = 0 by omega) x hx
  rcases Nat.lt_or_ge left.length m with hshort | hlong
  · rw [List.drop_eq_nil_of_le hshort.le, List.drop_eq_nil_of_le]
    · rfl
    · exact (List.length_filter_le _ _).trans hshort.le
  · conv_rhs => rw [← List.take_append_drop m left, List.filter_append, hkeep]
    have htake : (left.take m).length = m := List.length_take_of_le hlong
    rw [List.drop_append_of_le_length htake.ge, List.drop_eq_nil_of_le htake.le, List.nil_append]

theorem eq_of_countP_eq_one (h : xs.countP t = 1) {x y : α} (hx : x ∈ xs) (hy : y ∈ xs)
    (htx : t x = true) (hty : t y = true) : x = y := by
  rw [List.countP_eq_length_filter, List.length_eq_one_iff] at h
  obtain ⟨z, hz⟩ := h
  have hxz : x ∈ xs.filter t := List.mem_filter.mpr ⟨hx, htx⟩
  have hyz : y ∈ xs.filter t := List.mem_filter.mpr ⟨hy, hty⟩
  rw [hz, List.mem_singleton] at hxz hyz
  rw [hxz, hyz]

theorem unpinned_concat : unpinned xs (reqs ++ [r]) q =
    (unpinned xs reqs q).filter fun x => !r.pins xs x := by
  unfold unpinned
  rw [List.filter_filter]
  refine List.filter_congr fun x _ => ?_
  rw [List.any_append, List.any_cons, List.any_nil, Bool.or_false, Bool.not_or]
  cases q x <;> cases r.pins xs x <;> simp

theorem rivals_concat : rivals xs (reqs ++ [r]) q =
    rivals xs reqs q + if r.once && !r.must && r.like xs q then 1 else 0 := by
  rw [rivals, List.countP_append, List.countP_singleton]
  rfl

/-- A request that takes the next element that passes `q`. -/
theorem drop_unpinned_rival (hrival : r.once = true ∧ r.must = false ∧ r.like xs q = true) :
    (unpinned xs (reqs ++ [r]) q).drop (rivals xs (reqs ++ [r]) q) =
      ((unpinned xs reqs q).drop (rivals xs reqs q)).drop 1 := by
  obtain ⟨honce, hmust, hlike⟩ := hrival
  have hpins : ∀ x, r.pins xs x = false := fun x => by simp [Request.pins, hmust]
  rw [unpinned_concat, rivals_concat, List.drop_drop]
  simp [hpins, honce, hmust, hlike]

/-- A request that must take the one element that it accepts, and finds it. -/
theorem drop_unpinned_pin (hpin : r.must = true ∧ r.once = true ∧ xs.countP r.test = 1)
    (hsub : ((leaveAll reqs xs).filter q).Sublist
      ((unpinned xs reqs q).drop (rivals xs reqs q)))
    (hfound : ∃ x ∈ leaveAll reqs xs, r.test x = true) :
    (unpinned xs (reqs ++ [r]) q).drop (rivals xs (reqs ++ [r]) q) =
      ((unpinned xs reqs q).drop (rivals xs reqs q)).filter fun x => !r.test x := by
  obtain ⟨hmust, honce, hone⟩ := hpin
  have hpins : ∀ x, r.pins xs x = r.test x := fun x => by simp [Request.pins, hmust, honce, hone]
  rw [unpinned_concat, rivals_concat, drop_filter]
  · simp [hpins, hmust]
  · -- the only element that `r` accepts is still there, so it is not among those dropped
    obtain ⟨y, hy, hty⟩ := hfound
    have hyxs := (leaveAll_sublist reqs xs).subset hy
    rw [List.countP_eq_length_filter]
    by_cases hnone : (unpinned xs reqs q).filter r.test = []
    · simp [hnone]
    · obtain ⟨x, hx⟩ := List.exists_mem_of_ne_nil _ hnone
      obtain ⟨hx, htx⟩ := List.mem_filter.mp hx
      obtain ⟨hxxs, hqx⟩ := List.mem_filter.mp hx
      cases eq_of_countP_eq_one hone hxxs hyxs htx hty
      have hle : ((unpinned xs reqs q).filter r.test).length ≤ 1 := by
        rw [← List.countP_eq_length_filter, ← hone]
        exact List.filter_sublist.countP_le
      have hmem : y ∈ (unpinned xs reqs q).drop (rivals xs reqs q) :=
        hsub.subset (List.mem_filter.mpr ⟨hy, (Bool.and_eq_true_iff.mp hqx).1⟩)
      exact hle.trans (List.countP_pos_iff.mpr ⟨y, hmem, hty⟩)

/-- Other requests do not count. -/
theorem drop_unpinned_other (hrival : ¬(r.once = true ∧ r.must = false ∧ r.like xs q = true))
    (hpin : ¬(r.must = true ∧ r.once = true ∧ xs.countP r.test = 1)) :
    (unpinned xs (reqs ++ [r]) q).drop (rivals xs (reqs ++ [r]) q) =
      (unpinned xs reqs q).drop (rivals xs reqs q) := by
  have hpins : ∀ x, r.pins xs x = false := fun x => by
    by_contra hx
    simp only [Request.pins, Bool.not_eq_false, Bool.and_eq_true, decide_eq_true_eq] at hx
    exact hpin ⟨hx.1.1.1, hx.1.1.2, hx.2⟩
  rw [unpinned_concat, rivals_concat, if_neg (by simpa [and_assoc] using hrival)]
  simp [hpins]

/-- Every rival takes one of the first, and a pinned element is gone. -/
theorem filter_leaveAll_sublist_drop (hserved : Served Request.must reqs xs) :
    ((leaveAll reqs xs).filter q).Sublist
      ((unpinned xs reqs q).drop (rivals xs reqs q)) := by
  induction reqs using List.reverseRecOn with
  | nil => simp [leaveAll, unpinned, rivals]
  | append_singleton reqs r ih =>
    obtain ⟨hserved, hfound⟩ := served_concat.mp hserved
    have hreqs := ih hserved
    have hsub := leaveAll_sublist reqs xs
    rw [leaveAll_concat]
    by_cases hrival : r.once = true ∧ r.must = false ∧ r.like xs q = true
    · have hlike : ∀ x ∈ leaveAll reqs xs, r.test x = q x := fun x hx => by
        simpa using List.all_eq_true.mp hrival.2.2 x (hsub.subset hx)
      rw [filter_leave_like hrival.1 hlike, drop_unpinned_rival hrival]
      exact hreqs.drop 1
    · by_cases hpin : r.must = true ∧ r.once = true ∧ xs.countP r.test = 1
      · have hone := hsub.countP_le (p := r.test)
        rw [drop_unpinned_pin hpin hreqs (hfound hpin.1), filter_leave_pin hpin.2.1 (by omega)]
        exact hreqs.filter _
      · rw [drop_unpinned_other hrival hpin]
        exact ((leave_sublist r (leaveAll reqs xs)).filter q).trans hreqs

/-- **What may be left.** -/
theorem filter_leaveAll_sublist (hserved : Served Request.must reqs xs) :
    ((leaveAll reqs xs).filter q).Sublist (remains xs reqs q) := by
  have hall : (leaveAll reqs xs).filter q = ((leaveAll reqs xs).filter q).filter fun x =>
      reqs.all fun r => r.once || !r.test x := by
    rw [eq_comm, List.filter_eq_self]
    intro x hx
    rw [List.all_eq_true]
    intro r hr
    cases honce : r.once with
    | true => rfl
    | false =>
      rw [not_test_of_mem_leaveAll honce hr (List.mem_of_mem_filter hx)]
      rfl
  rw [hall]
  exact (filter_leaveAll_sublist_drop hserved).filter _

/-- Likewise with equality, where a request that is neither a rival nor a pin accepts nothing
    that passes `q`. -/
theorem filter_leaveAll_eq_drop (hserved : Served Request.must reqs xs)
    (hpins : ∀ r ∈ reqs, r.must = true → r.once = true ∧ xs.countP r.test = 1)
    (hclear : ∀ r ∈ reqs, r.must = false → (r.once = true ∧ r.like xs q = true) ∨
      ∀ x ∈ xs, r.test x = true → q x = false) :
    (leaveAll reqs xs).filter q = (unpinned xs reqs q).drop (rivals xs reqs q) := by
  induction reqs using List.reverseRecOn with
  | nil => simp [leaveAll, unpinned, rivals]
  | append_singleton reqs r ih =>
    obtain ⟨hserved, hfound⟩ := served_concat.mp hserved
    have hreqs := ih hserved (fun r' hr' => hpins r' (List.mem_append_left _ hr'))
      fun r' hr' => hclear r' (List.mem_append_left _ hr')
    have hsub := leaveAll_sublist reqs xs
    rw [leaveAll_concat]
    cases hmust : r.must with
    | true =>
      have hpin := hpins r (by simp) hmust
      have hone := hsub.countP_le (p := r.test)
      rw [drop_unpinned_pin ⟨hmust, hpin⟩ (hreqs ▸ List.Sublist.refl _) (hfound hmust),
        filter_leave_pin hpin.1 (by omega), hreqs]
    | false =>
      by_cases hrival : r.once = true ∧ r.must = false ∧ r.like xs q = true
      · have hlike : ∀ x ∈ leaveAll reqs xs, r.test x = q x := fun x hx => by
          simpa using List.all_eq_true.mp hrival.2.2 x (hsub.subset hx)
        rw [filter_leave_like hrival.1 hlike, drop_unpinned_rival hrival, hreqs]
      · have hapart := (hclear r (by simp) hmust).resolve_left fun h =>
          hrival ⟨h.1, hmust, h.2⟩
        rw [filter_leave_apart fun x hx => hapart x (hsub.subset hx),
          drop_unpinned_other hrival (by simp [hmust]), hreqs]

/-- **What is left** where every request either must take the one element that it accepts, or
    accepts the same as `q` or nothing that passes `q`. -/
theorem filter_leaveAll_eq (hserved : Served Request.must reqs xs)
    (hpins : ∀ r ∈ reqs, r.must = true → r.once = true ∧ xs.countP r.test = 1)
    (hclear : ∀ r ∈ reqs, r.must = false →
      r.like xs q = true ∨ ∀ x ∈ xs, r.test x = true → q x = false) :
    (leaveAll reqs xs).filter q = remains xs reqs q := by
  by_cases hmany : ∃ r ∈ reqs, r.once = false ∧ r.like xs q = true
  · -- a request for all that pass `q` leaves none
    obtain ⟨r, hr, honce, hlike⟩ := hmany
    have hnone : remains xs reqs q = [] := by
      rw [remains, List.filter_eq_nil_iff]
      intro x hx hall
      obtain ⟨hxs, hq⟩ := List.mem_filter.mp ((List.drop_sublist _ _).subset hx)
      have htest : (r.once || !r.test x) = true := List.all_eq_true.mp hall r hr
      have hsame : r.test x = q x := by simpa using List.all_eq_true.mp hlike x hxs
      rw [honce, hsame, (Bool.and_eq_true_iff.mp hq).1] at htest
      cases htest
    have hsub := filter_leaveAll_sublist (q := q) hserved
    rw [hnone] at hsub ⊢
    exact List.sublist_nil.mp hsub
  · have hclear' : ∀ r ∈ reqs, r.must = false → (r.once = true ∧ r.like xs q = true) ∨
        ∀ x ∈ xs, r.test x = true → q x = false := by
      intro r hr hmust
      rcases hclear r hr hmust with hlike | hapart
      · refine Or.inl ⟨?_, hlike⟩
        by_contra honce
        exact hmany ⟨r, hr, by simpa using honce, hlike⟩
      · exact Or.inr hapart
    have hdrop := filter_leaveAll_eq_drop hserved hpins hclear'
    -- what passes `q` passes no request for all
    have hsub := filter_leaveAll_sublist (q := q) hserved
    refine hsub.eq_of_length_le ?_
    rw [hdrop]
    exact List.length_filter_le _ _

end Which

/-! ## An element that stays -/

/-- After the requests `reqs`, `left` still has `i`, and in front of it what is left of `pre`:
    of each kind all but one for every request that accepts some of it. -/
def Stays (i : α) (pre : List α) (reqs : List (Request α)) (left : List α) : Prop :=
  ∃ pre' post, left = pre' ++ i :: post ∧ pre'.Sublist pre ∧
    ∀ p, pre.countP p ≤ pre'.countP p + reqs.countP fun r => r.touches pre p

section Place

variable {i : α} {pre left : List α} {reqs : List (Request α)} {r : Request α}

theorem Stays.start (i : α) (pre post : List α) : Stays i pre [] (pre ++ i :: post) :=
  ⟨pre, post, rfl, List.Sublist.refl _, fun _ => Nat.le_add_right _ _⟩

/-- **An element stays** after a request for one element that does not accept it, or that still
    finds another one in front of it. -/
theorem Stays.step (h : Stays i pre reqs left) (honce : r.once = true)
    (hr : r.test i = true → ∃ p : α → Bool, (∀ x ∈ pre, p x = true → r.test x = true) ∧
      reqs.countP (fun r => r.touches pre p) < pre.countP p) :
    Stays i pre (reqs ++ [r]) (r.leave left) := by
  obtain ⟨pre', post, rfl, hsub, hcount⟩ := h
  rw [Request.leave, if_pos honce]
  by_cases hfront : ∃ x ∈ pre', r.test x = true
  · obtain ⟨x, hx, htest⟩ := hfront
    refine ⟨pre'.eraseP r.test, post, List.eraseP_append_left htest _ hx,
      List.eraseP_sublist.trans hsub, fun p => ?_⟩
    have hsplit := countP_give_add_leave p r pre'
    have hone : (r.give pre').countP p ≤ 1 := countP_give_le_one honce
    rw [Request.leave, if_pos honce] at hsplit
    have hle := hcount p
    rw [List.countP_append, List.countP_singleton]
    cases htouch : r.touches pre p with
    | false =>
      have hzero := countP_give_eq_zero hsub.subset htouch
      simp only [Bool.false_eq_true, if_false]
      omega
    | true =>
      simp only [if_true]
      omega
  · have hnot : ¬r.test i = true := by
      intro hi
      obtain ⟨p, hp, hlt⟩ := hr hi
      have hle := hcount p
      obtain ⟨x, hx, hpx⟩ := List.countP_pos_iff.mp (show 0 < pre'.countP p by omega)
      exact hfront ⟨x, hx, hp x (hsub.subset hx) hpx⟩
    refine ⟨pre', post.eraseP r.test, ?_, hsub, fun p => ?_⟩
    · rw [List.eraseP_append_right _ fun x hx htest => hfront ⟨x, hx, htest⟩,
        List.eraseP_cons_of_neg hnot]
    · rw [List.countP_append]
      exact (hcount p).trans (by omega)

/-- Requests that do not accept an element leave it where it is. -/
theorem Stays.steps {reqs' : List (Request α)} :
    ∀ {reqs : List (Request α)} {left : List α}, Stays i pre reqs left →
      (∀ r ∈ reqs', r.once = true ∧ r.test i = false) →
      Stays i pre (reqs ++ reqs') (leaveAll reqs' left) := by
  induction reqs' with
  | nil => intro reqs left h _; rwa [List.append_nil]
  | cons r reqs' ih =>
    intro reqs left h hreqs
    obtain ⟨honce, htest⟩ := hreqs r List.mem_cons_self
    have hstep := h.step honce fun hi => by simp [htest] at hi
    have hrest := ih hstep fun r' hr' => hreqs r' (List.mem_cons_of_mem r hr')
    rwa [List.append_assoc] at hrest

end Place

end Tx3Lift.Lib
