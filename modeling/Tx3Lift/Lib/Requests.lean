import Tx3Lift.Lib.Dealing

/-!
# Requests and what they leave

Scans without slots and flags: each request of a list takes elements of what the requests
before it have left.

* `serve_leftFrom`: scans on flags give out what the requests take.
* `assignAll_entry`, `assignAll_served_iff`: one entry of an assignment, and when an assignment
  serves every request that needs something.
-/

namespace Tx3Lift.Lib

variable {α β : Type}

/-- A scan for what passes `test`. It takes the first such element, or all of them; the loop
    fails for a `must` that finds none. -/
structure Request (α : Type) where
  test : α → Bool
  once : Bool
  must : Bool

/-- What a request takes of what is left. -/
def Request.give (r : Request α) (left : List α) : List α :=
  if r.once then (left.find? r.test).toList else left.filter r.test

/-- What a request leaves. -/
def Request.leave (r : Request α) (left : List α) : List α :=
  if r.once then left.eraseP r.test else left.filter fun x => !r.test x

/-- What a list of requests takes, one after the other. -/
def giveAll : List (Request α) → List α → List α
  | [], _ => []
  | r :: reqs, left => r.give left ++ giveAll reqs (r.leave left)

/-- What a list of requests leaves. -/
def leaveAll : List (Request α) → List α → List α
  | [], left => left
  | r :: reqs, left => leaveAll reqs (r.leave left)

/-- The requests that need something find it. -/
def Served (need : Request α → Bool) : List (Request α) → List α → Prop
  | [], _ => True
  | r :: reqs, left =>
    (need r = true → ∃ x ∈ left, r.test x = true) ∧ Served need reqs (r.leave left)

instance decidableServed (need : Request α → Bool) :
    (reqs : List (Request α)) → (left : List α) → Decidable (Served need reqs left)
  | [], _ => isTrue trivial
  | r :: reqs, left =>
    have := decidableServed need reqs (r.leave left)
    inferInstanceAs (Decidable (_ ∧ _))

/-! ## Lists of requests -/

section Lists

variable {need need' : Request α → Bool} {r : Request α} {reqs reqs' : List (Request α)}
  {left xs : List α} {x : α}

/-- What one request takes: all that passes, or the first. -/
theorem give_eq (r : Request α) (left : List α) :
    r.give left = if r.once then (left.filter r.test).take 1 else left.filter r.test := by
  unfold Request.give
  split_ifs
  · rw [List.take_one, List.head?_filter]
  · rfl

theorem leave_sublist (r : Request α) (left : List α) : (r.leave left).Sublist left := by
  unfold Request.leave
  split_ifs
  · exact List.eraseP_sublist
  · exact List.filter_sublist

theorem leaveAll_sublist (reqs : List (Request α)) :
    ∀ left : List α, (leaveAll reqs left).Sublist left := by
  induction reqs with
  | nil => intro left; exact List.Sublist.refl _
  | cons r reqs ih => intro left; exact (ih _).trans (leave_sublist r left)

theorem leaveAll_append (reqs reqs' : List (Request α)) :
    ∀ left : List α, leaveAll (reqs ++ reqs') left = leaveAll reqs' (leaveAll reqs left) := by
  induction reqs with
  | nil => intro left; rfl
  | cons r reqs ih => intro left; exact ih _

theorem leaveAll_concat (reqs : List (Request α)) (r : Request α) (left : List α) :
    leaveAll (reqs ++ [r]) left = r.leave (leaveAll reqs left) :=
  leaveAll_append reqs [r] left

theorem served_append :
    ∀ {reqs : List (Request α)} {left : List α}, Served need (reqs ++ reqs') left ↔
      Served need reqs left ∧ Served need reqs' (leaveAll reqs left) := by
  intro reqs
  induction reqs with
  | nil => intro left; exact ⟨fun h => ⟨trivial, h⟩, And.right⟩
  | cons r reqs ih =>
    intro left
    rw [List.cons_append, Served, ih, Served, leaveAll, and_assoc]

theorem served_concat : Served need (reqs ++ [r]) left ↔
    Served need reqs left ∧ (need r = true → ∃ x ∈ leaveAll reqs left, r.test x = true) := by
  rw [served_append, Served, Served, and_true]

/-- Who is served finds it in the list. -/
theorem Served.exists_mem : ∀ {reqs : List (Request α)} {left : List α},
    Served need reqs left → ∀ r ∈ reqs, need r = true → ∃ x ∈ left, r.test x = true := by
  intro reqs
  induction reqs with
  | nil => intro left _ r hr; cases hr
  | cons r' reqs ih =>
    rintro left ⟨hfirst, hserved⟩ r hr hneed
    rcases List.mem_cons.mp hr with rfl | hr
    · exact hfirst hneed
    · obtain ⟨x, hx, htest⟩ := ih hserved r hr hneed
      exact ⟨x, (leave_sublist r' left).subset hx, htest⟩

/-- A request for all that pass leaves none of them. -/
theorem not_test_of_mem_leaveAll (hall : r.once = false) :
    ∀ {reqs : List (Request α)} {left : List α}, r ∈ reqs → x ∈ leaveAll reqs left →
      r.test x = false := by
  intro reqs
  induction reqs with
  | nil => intro left hr; cases hr
  | cons r' reqs ih =>
    intro left hr hx
    rcases List.mem_cons.mp hr with rfl | hr
    · have hx' := (leaveAll_sublist reqs _).subset hx
      rw [Request.leave, hall] at hx'
      simpa using (List.mem_filter.mp hx').2
    · exact ih hr hx

end Lists

/-! ## Requests on flags -/

/-- The scans for a list of requests, one after the other on the same flags. -/
def serve (xs : List α) : List (Request α) → List Bool → List ℕ × List Bool
  | [], consumed => ([], consumed)
  | r :: reqs, consumed =>
    let matched := claim r.test r.once 0 xs consumed
    let rest := serve xs reqs matched.2
    (matched.1 ++ rest.1, rest.2)

section Flags

variable {xs : List α} {consumed : List Bool}

/-- The free slots that pass hold the elements left that pass. -/
theorem freeSlots_elements (xs : List α) (consumed : List Bool) (p : α → Bool) :
    (freeSlots xs consumed p).filterMap (fun s => xs[s]?) = (leftFrom 0 xs consumed).filter p := by
  unfold freeSlots freeSlotsFrom leftFrom
  rw [List.filterMap_map, List.filter_map, List.filter_filter, ← List.filterMap_eq_map]
  have hconj : ∀ e : α × ℕ, (!consumed.getD e.2 false && p e.1) =
      ((p ∘ Prod.fst) e && !consumed.getD e.2 false) := fun e => Bool.and_comm _ _
  rw [List.filter_congr fun e _ => hconj e]
  refine List.filterMap_congr fun e he => ?_
  exact List.mem_zipIdx_iff_getElem?.mp (List.mem_of_mem_filter he)

/-- What claims leave, by the slots they take. -/
theorem leftFrom_of_claims {consumed' : List Bool} {m : List ℕ}
    (h : Claims consumed m consumed') : leftFrom 0 xs consumed' =
      ((xs.zipIdx 0).filter fun e => !consumed.getD e.2 false && decide (e.2 ∉ m)).map Prod.fst := by
  unfold leftFrom
  refine congrArg _ (List.filter_congr fun e _ => ?_)
  rw [List.getD_eq_getElem?_getD, List.getD_eq_getElem?_getD, h.marked]
  by_cases hs : e.2 ∈ m <;> simp [hs]

/-- A scan for all takes what passes and leaves the rest. -/
theorem claim_all_leftFrom (p : α → Bool) (hlen : consumed.length = xs.length) :
    (claim p false 0 xs consumed).1.filterMap (fun s => xs[s]?) =
        (leftFrom 0 xs consumed).filter p ∧
      leftFrom 0 xs (claim p false 0 xs consumed).2 =
        (leftFrom 0 xs consumed).filter fun x => !p x := by
  have hslots : (claim p false 0 xs consumed).1 = freeSlots xs consumed p := claim_eq p false xs _
  refine ⟨by rw [hslots, freeSlots_elements], ?_⟩
  rw [leftFrom_of_claims (claim_spec p false hlen).1, hslots, leftFrom, List.filter_map,
    List.filter_filter]
  refine congrArg _ (List.filter_congr fun e he => ?_)
  have hx : xs[e.2]? = some e.1 := List.mem_zipIdx_iff_getElem?.mp he
  have hmem := mem_freeSlots (p := p) hlen (s := e.2)
  have hlt : e.2 < consumed.length := hlen ▸ (List.getElem?_eq_some_iff.mp hx).1
  rw [FreeFit, List.getElem?_eq_getElem hlt] at hmem
  rw [List.getD_eq_getElem _ _ hlt, Function.comp_apply]
  cases hused : consumed[e.2] <;> cases hp : p e.1 <;> simp [hmem, hx, hused, hp]

/-- One request on flags. -/
theorem claim_request (r : Request α) (hlen : consumed.length = xs.length) :
    (claim r.test r.once 0 xs consumed).1.filterMap (fun s => xs[s]?) =
        r.give (leftFrom 0 xs consumed) ∧
      leftFrom 0 xs (claim r.test r.once 0 xs consumed).2 = r.leave (leftFrom 0 xs consumed) := by
  unfold Request.give Request.leave
  cases r.once with
  | true =>
    obtain ⟨-, htaken, hleft⟩ := claim_leftFrom r.test xs 0 consumed (by omega)
    exact ⟨htaken, hleft⟩
  | false => exact claim_all_leftFrom r.test hlen

/-- A scan for one element claims a slot exactly when an element that passes is left. -/
theorem claim_once_iff (p : α → Bool) (hlen : consumed.length = xs.length) :
    (∃ s, (claim p true 0 xs consumed).1 = [s]) ↔ ∃ x ∈ leftFrom 0 xs consumed, p x = true := by
  obtain ⟨hempty, -, -⟩ := claim_leftFrom p xs 0 consumed (by omega)
  have hle := (claim_spec p true hlen).2.2 rfl
  rw [← List.any_eq_true, ← Bool.not_eq_false', ← hempty, List.isEmpty_eq_false_iff]
  constructor
  · rintro ⟨s, hs⟩ hnil
    rw [hnil] at hs
    cases hs
  · intro hne
    exact List.length_eq_one_iff.mp (le_antisymm hle (List.length_pos_iff.mpr hne))

theorem serve_claims (reqs : List (Request α)) :
    ∀ {consumed : List Bool}, consumed.length = xs.length →
      Claims consumed (serve xs reqs consumed).1 (serve xs reqs consumed).2 := by
  induction reqs with
  | nil => intro consumed _; exact Claims.nil _
  | cons r reqs ih =>
    intro consumed hlen
    obtain ⟨hclaims, -, -⟩ := claim_spec r.test r.once hlen
    exact hclaims.append (ih (hclaims.length_eq.trans hlen))

/-- **Scans on flags give out what the requests take.** -/
theorem serve_leftFrom (reqs : List (Request α)) :
    ∀ {consumed : List Bool}, consumed.length = xs.length →
      (serve xs reqs consumed).1.filterMap (fun s => xs[s]?) =
          giveAll reqs (leftFrom 0 xs consumed) ∧
        leftFrom 0 xs (serve xs reqs consumed).2 = leaveAll reqs (leftFrom 0 xs consumed) := by
  induction reqs with
  | nil => intro consumed _; exact ⟨rfl, rfl⟩
  | cons r reqs ih =>
    intro consumed hlen
    obtain ⟨htaken, hleft⟩ := claim_request r hlen
    obtain ⟨hclaims, -, -⟩ := claim_spec r.test r.once hlen
    obtain ⟨hrest, hleft'⟩ := ih (hclaims.length_eq.trans hlen)
    rw [hleft] at hrest hleft'
    exact ⟨by rw [serve, List.filterMap_append, htaken, hrest, giveAll], hleft'⟩

end Flags

/-! ## Requests for the entries of an assignment -/

section Assign

variable {f : β → List Bool → Option (List ℕ × List Bool)} {xs : List α}
  {reqs : β → List (Request α)}

/-- **One entry of a map.** It is served from flags that leave what the requests of the entries
    before it leave, and on which the slots from this entry on are still free. -/
theorem assignAll_entry
    (hf : ∀ b u r, u.length = xs.length → f b u = some r → r = serve xs (reqs b) u) :
    ∀ {bs : List β} {u : List Bool} {mm : List (List ℕ)}, u.length = xs.length →
      assignAll f bs u = some mm → ∀ {k : ℕ} {b : β}, bs[k]? = some b →
      ∃ u', u'.length = xs.length ∧
        leftFrom 0 xs u' = leaveAll ((bs.take k).flatMap reqs) (leftFrom 0 xs u) ∧
        mm[k]? = some (serve xs (reqs b) u').1 ∧ f b u' = some (serve xs (reqs b) u') ∧
        ∀ s ∈ (mm.drop k).flatten, u'[s]? = some false := by
  intro bs
  induction bs with
  | nil => intro u mm _ _ k b hb; simp at hb
  | cons c bs ih =>
    intro u mm hlen h k b hb
    have hstep : ∀ c u m u', u.length = xs.length → f c u = some (m, u') →
        Claims u m u' ∧ True := by
      intro c u m u' hu hc
      have hclaims := serve_claims (reqs c) hu
      rw [← hf c u _ hu hc] at hclaims
      exact ⟨hclaims, trivial⟩
    obtain ⟨-, u'', hclaims⟩ := assignAll_claims hstep (c :: bs) u mm hlen h
    rw [assignAll] at h
    cases hc : f c u with
    | none => simp [hc] at h
    | some r =>
      have hr := hf c u r hlen hc
      rw [hr] at hc
      rw [hc] at h
      obtain ⟨rest, hrest, rfl⟩ := Option.map_eq_some_iff.mp h
      cases k with
      | zero =>
        cases Option.some.inj hb
        exact ⟨u, hlen, rfl, rfl, hc, hclaims.free⟩
      | succ k =>
        have hlen' := (serve_claims (reqs c) hlen).length_eq.trans hlen
        obtain ⟨u', hu', hleft, hmap, hentry, hfree⟩ := ih hlen' hrest hb
        rw [(serve_leftFrom (reqs c) hlen).2, ← leaveAll_append] at hleft
        exact ⟨u', hu', hleft, hmap, hentry, hfree⟩

/-- **When an assignment serves a need.** -/
theorem assignAll_served_iff {need : Request α → Bool} {Good : β → List ℕ → Prop}
    (hf : ∀ b u r, u.length = xs.length → f b u = some r → r = serve xs (reqs b) u)
    (hgood : ∀ b u, u.length = xs.length →
      ((∃ r, f b u = some r ∧ Good b r.1) ↔ Served need (reqs b) (leftFrom 0 xs u))) :
    ∀ (bs : List β) (u : List Bool), u.length = xs.length →
      ((∃ mm, assignAll f bs u = some mm ∧ List.Forall₂ Good bs mm) ↔
        Served need (bs.flatMap reqs) (leftFrom 0 xs u)) := by
  intro bs
  induction bs with
  | nil => intro u _; exact ⟨fun _ => trivial, fun _ => ⟨[], rfl, List.Forall₂.nil⟩⟩
  | cons b bs ih =>
    intro u hlen
    have hrest := ih _ ((serve_claims (reqs b) hlen).length_eq.trans hlen)
    rw [(serve_leftFrom (reqs b) hlen).2] at hrest
    rw [List.flatMap_cons, served_append, ← hgood b u hlen, ← hrest]
    constructor
    · rintro ⟨mm, hmm, hall⟩
      rw [assignAll] at hmm
      cases hb : f b u with
      | none => simp [hb] at hmm
      | some r =>
        rw [hb] at hmm
        obtain ⟨rest, hmap, rfl⟩ := Option.map_eq_some_iff.mp hmm
        obtain ⟨hr, hall⟩ := List.forall₂_cons.mp hall
        rw [← hf b u r hlen hb]
        exact ⟨⟨r, rfl, hr⟩, rest, hmap, hall⟩
    · rintro ⟨⟨r, hb, hr⟩, rest, hmap, hall⟩
      rw [← hf b u r hlen hb] at hmap
      exact ⟨r.1 :: rest, by rw [assignAll, hb]; simp [hmap], List.Forall₂.cons hr hall⟩

end Assign

end Tx3Lift.Lib
