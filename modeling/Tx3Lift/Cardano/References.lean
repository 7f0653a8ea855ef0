import Tx3Lift.Cardano.Complete
import Tx3Lift.Lib.Remains

/-!
# Which references an accepted transaction carries

The loop over the template references skips a pinned reference that it does not find, and an
unconstrained reference takes the first payload reference that is left.

* `matchReference_serve`: what one template reference asks for.
* `kept_before`: a payload reference that is still there when its list comes.
* `spared_of_covered`: what must have been so if a list finds all its references.
* `references_covered_iff`: when every pinned reference has its payload input.
-/

namespace Tx3Lift

open Lib Tir

/-! ## The conditions -/

/-- The template reference pins no payload reference. -/
def isUnconstrained (tirRef : Expression) : Bool := (constUtxoRefs tirRef).isNone

/-- One of the template references pins the payload reference `i`. -/
def pinnedBy (references : List Expression) (i : TransactionInput) : Bool :=
  (references.flatMap pinnedRefs).any fun r => i.matchesRef r

/-- The reference `r` of the list at position `k` is left for it. No earlier list pins it; and
    there is a payload reference with it, the first that agrees in the hash and the low 32 bits
    of the index, such that every earlier unconstrained reference is served before it: in front
    of it are more payload references that no list before this one pins than there are
    unconstrained references before this one. -/
def RefSpared (tx : MultiEraTx) (references : List Expression) (k : ℕ) (r : Tir.UtxoRef) : Prop :=
  (∀ q ∈ (references.take k).flatMap pinnedRefs, q ≠ r) ∧
  ∃ (s : ℕ) (i : TransactionInput), tx.referenceInputs[s]? = some i ∧ i.IsRef r.key ∧
    (∀ j ∈ tx.referenceInputs.take s, j.matchesRef r = true → j.IsRef r.key) ∧
    ∀ l < k, ∀ tirRef, references[l]? = some tirRef → isUnconstrained tirRef = true →
      (references.take l).countP isUnconstrained <
        (tx.referenceInputs.take s).countP fun j => !pinnedBy (references.take l) j

/-- Every reference of every constant list is left for it. -/
def ReferencesSpared (tx : MultiEraTx) (references : List Expression) : Prop :=
  ∀ (k : ℕ) (tirRef : Expression) (refs : List Tir.UtxoRef), references[k]? = some tirRef →
    constUtxoRefs tirRef = some refs → ∀ r ∈ refs, RefSpared tx references k r

/-- Every reference of a constant list is that of some payload reference assigned to it. -/
def ReferencesCovered (tx : MultiEraTx) (references : List Expression)
    (referenceMap : List (List ℕ)) : Prop :=
  ∀ (k : ℕ) (tirRef : Expression) (refs : List Tir.UtxoRef), references[k]? = some tirRef →
    constUtxoRefs tirRef = some refs → ∀ r ∈ refs, ∃ slots, referenceMap[k]? = some slots ∧
      ∃ s ∈ slots, ∃ i, tx.referenceInputs[s]? = some i ∧ i.IsRef r.key

/-- No two reference inputs agree in the hash and the low 32 bits of the index. -/
def DistinctReferences (tx : MultiEraTx) : Prop :=
  (tx.referenceInputs.map TransactionInput.key).Nodup

section References

variable {tx : MultiEraTx} {references : List Expression} {map : List (List ℕ)} {k l : ℕ}
  {tirRef : Expression} {r : Tir.UtxoRef} {i : TransactionInput}

/-! ## What a template reference asks for -/

/-- The payload references that a list pins, as far as they are there; else any one. -/
def referenceRequests (tirRef : Expression) : List (Request TransactionInput) :=
  match constUtxoRefs tirRef with
  | some refs => refs.map (refRequest false)
  | none => [{ test := fun _ => true, once := true, must := true }]

theorem referenceRequests_pinned {refs : List Tir.UtxoRef}
    (hrefs : constUtxoRefs tirRef = some refs) :
    referenceRequests tirRef = refs.map (refRequest false) := by
  simp [referenceRequests, hrefs]

theorem referenceRequests_unconstrained (h : isUnconstrained tirRef = true) :
    referenceRequests tirRef = [{ test := fun _ => true, once := true, must := true }] := by
  have hrefs : constUtxoRefs tirRef = none := Option.isNone_iff_eq_none.mp h
  simp [referenceRequests, hrefs]

theorem claimPresentRefs_eq (inputs : List TransactionInput) :
    ∀ (refs : List Tir.UtxoRef) (consumed : List Bool), claimPresentRefs inputs refs consumed =
      serve inputs (refs.map (refRequest false)) consumed := by
  intro refs
  induction refs with
  | nil => intro consumed; rfl
  | cons r refs ih =>
    intro consumed
    rw [claimPresentRefs, List.map_cons, serve, ih]
    rfl

theorem matchReference_serve {payloadRefs : List TransactionInput} {consumed : List Bool}
    {matched : List ℕ × List Bool} (h : matchReference payloadRefs tirRef consumed = some matched) :
    matched = serve payloadRefs (referenceRequests tirRef) consumed := by
  obtain ⟨-, ⟨refs, hrefs, heq⟩ | ⟨hrefs, heq⟩⟩ := matchReference_eq_some h
  · rw [referenceRequests_pinned hrefs, heq, claimPresentRefs_eq]
  · rw [referenceRequests_unconstrained (by simp [isUnconstrained, hrefs]), heq]
    simp [serve]

/-- The scan's test determines the reference. -/
theorem matchesRef_inj {i : TransactionInput} {r r' : Tir.UtxoRef} (h : i.matchesRef r = true)
    (h' : i.matchesRef r' = true) : r = r' := by
  have hkey : r.key = r'.key := (matchesRef_iff_key.mp h).symm.trans (matchesRef_iff_key.mp h')
  cases r
  cases r'
  cases hkey
  rfl

/-- An input with a reference passes the test for it. -/
theorem matchesRef_of_isRef {i : TransactionInput} {r : Tir.UtxoRef} (h : i.IsRef r.key) :
    i.matchesRef r = true := by
  have hindex : i.index.toNat = r.index.toNat := h.2
  have hfit : i.index.toNat < 2 ^ 32 := by
    rw [hindex]
    exact r.index.toNat_lt
  exact (matchesRef_iff hfit r).mpr h

theorem mem_pinnedRefs {refs : List Tir.UtxoRef} (hrefs : constUtxoRefs tirRef = some refs) :
    r ∈ pinnedRefs tirRef ↔ r ∈ refs := by
  rw [pinnedRefs, hrefs]
  rfl

/-! ## References that are left -/

theorem not_matchesRef_of_not_pinnedBy (h : (!pinnedBy references i) = true)
    (hr : r ∈ references.flatMap pinnedRefs) : i.matchesRef r = false := by
  rw [Bool.not_eq_true', pinnedBy, List.any_eq_false] at h
  simpa using h r hr

/-- Only the unconstrained references accept what no list pins. -/
theorem countP_touches_le {pre : List TransactionInput} {p : TransactionInput → Bool}
    (h : ∀ q ∈ references.flatMap pinnedRefs, ∀ j ∈ pre, p j = true → j.matchesRef q = false) :
    ((references.flatMap referenceRequests).countP fun r => r.touches pre p) ≤
      references.countP isUnconstrained := by
  induction references with
  | nil => exact le_rfl
  | cons tirRef references ih =>
    have hrest := ih fun q hq => h q (by simp [hq])
    rw [List.flatMap_cons, List.countP_append, List.countP_cons, Nat.add_comm]
    refine Nat.add_le_add hrest ?_
    cases hany : isUnconstrained tirRef with
    | true =>
      rw [referenceRequests_unconstrained hany]
      exact List.countP_le_length
    | false =>
      obtain ⟨refs, hrefs⟩ := Option.isSome_iff_exists.mp (by simpa [isUnconstrained] using hany)
      refine le_of_eq (List.countP_eq_zero.mpr fun r hr htouch => ?_)
      rw [referenceRequests_pinned hrefs] at hr
      obtain ⟨q, hq, rfl⟩ := List.mem_map.mp hr
      obtain ⟨j, hj, hboth⟩ := List.any_eq_true.mp htouch
      obtain ⟨hp, htest⟩ := Bool.and_eq_true_iff.mp hboth
      have hnot := h q (by simp [mem_pinnedRefs hrefs, hq]) j hj hp
      rw [show j.matchesRef q = true from htest] at hnot
      cases hnot

/-- The references before a list: a payload reference that none of them pins, and that every
    unconstrained one finds another one in front of, is kept. -/
theorem kept_before {pre post : List TransactionInput}
    (hnot : ∀ q ∈ references.flatMap pinnedRefs, i.matchesRef q = false)
    (hfront : ∀ l, ∀ tirRef, references[l]? = some tirRef → isUnconstrained tirRef = true →
      (references.take l).countP isUnconstrained <
        pre.countP fun j => !pinnedBy (references.take l) j) :
    Stays i pre (references.flatMap referenceRequests)
      (leaveAll (references.flatMap referenceRequests) (pre ++ i :: post)) := by
  induction references using List.reverseRecOn with
  | nil => exact Stays.start i pre post
  | append_singleton references tirRef ih =>
    have hkept := ih (fun q hq => hnot q (by simp [hq])) fun l e he hany => by
      have hlt : l < references.length := (List.getElem?_eq_some_iff.mp he).1
      have hl := hfront l e (by rwa [List.getElem?_append_left hlt]) hany
      rwa [List.take_append_of_le_length hlt.le] at hl
    have hlast : (references ++ [tirRef])[references.length]? = some tirRef := by simp
    rw [List.flatMap_append, List.flatMap_singleton, leaveAll_append]
    cases hany : isUnconstrained tirRef with
    | true =>
      have hlt := hfront references.length tirRef hlast hany
      rw [List.take_left] at hlt
      rw [referenceRequests_unconstrained hany]
      refine hkept.step rfl fun _ => ⟨_, fun _ _ _ => rfl, lt_of_le_of_lt ?_ hlt⟩
      exact countP_touches_le fun q hq j _ hj => not_matchesRef_of_not_pinnedBy hj hq
    | false =>
      obtain ⟨refs, hrefs⟩ := Option.isSome_iff_exists.mp (by simpa [isUnconstrained] using hany)
      rw [referenceRequests_pinned hrefs]
      refine hkept.steps fun r hr => ?_
      obtain ⟨q, hq, rfl⟩ := List.mem_map.mp hr
      exact ⟨rfl, hnot q (by simp [mem_pinnedRefs hrefs, hq])⟩

/-- A list gets the first payload reference left that it pins. -/
theorem mem_giveAll {refs : List Tir.UtxoRef} (hr : r ∈ refs) :
    ∀ {left : List TransactionInput}, left.find? (fun j => j.matchesRef r) = some i →
      i ∈ giveAll (refs.map (refRequest false)) left := by
  induction refs with
  | nil => cases hr
  | cons q refs ih =>
    intro left hfind
    have honce : (refRequest false q).once = true := rfl
    rw [List.map_cons, giveAll, List.mem_append]
    by_cases hqr : q = r
    · left
      have hgive : (refRequest false q).give left = [i] := by
        rw [Request.give, if_pos honce, hqr, refRequest, hfind]
        rfl
      rw [hgive]
      exact List.mem_singleton.mpr rfl
    · right
      have hrest : r ∈ refs := (List.mem_cons.mp hr).resolve_left (Ne.symm hqr)
      refine ih hrest ?_
      rw [Request.leave, if_pos honce, find?_eraseP fun j _ hj => ?_, hfind]
      by_contra hjr
      exact hqr (matchesRef_inj hj (by simpa using hjr))

/-- **References that are left are found.** -/
theorem covered_of_spared
    (h : assignAll (matchReference tx.referenceInputs) references
      (List.replicate tx.referenceInputs.length false) = some map)
    (hk : references[k]? = some tirRef) {refs : List Tir.UtxoRef}
    (hrefs : constUtxoRefs tirRef = some refs) (hr : r ∈ refs)
    (hspared : RefSpared tx references k r) :
    ∃ slots, map[k]? = some slots ∧
      ∃ s ∈ slots, ∃ i, tx.referenceInputs[s]? = some i ∧ i.IsRef r.key := by
  obtain ⟨hother, s, i, hs, hir, hfirst, hfront⟩ := hspared
  obtain ⟨u, hlen, hleft, hmap, -, -⟩ :=
    assignAll_entry (fun _ _ _ _ hm => matchReference_serve hm) List.length_replicate h hk
  rw [leftFrom_replicate] at hleft
  have hlt : s < tx.referenceInputs.length := (List.getElem?_eq_some_iff.mp hs).1
  have hsplit : tx.referenceInputs =
      tx.referenceInputs.take s ++ i :: tx.referenceInputs.drop (s + 1) := by
    have hi : tx.referenceInputs[s] = i := (List.getElem?_eq_some_iff.mp hs).2
    rw [← hi, List.getElem_cons_drop, List.take_append_drop]
  have hnot : ∀ q ∈ (references.take k).flatMap pinnedRefs, i.matchesRef q = false := by
    intro q hq
    by_contra hiq
    exact hother q hq (matchesRef_inj (by simpa using hiq) (matchesRef_of_isRef hir))
  have hstays : Stays i (tx.referenceInputs.take s) ((references.take k).flatMap referenceRequests)
      (leaveAll ((references.take k).flatMap referenceRequests)
        (tx.referenceInputs.take s ++ i :: tx.referenceInputs.drop (s + 1))) :=
    kept_before hnot fun l e he hany => by
      rw [List.getElem?_take, Option.ite_none_right_eq_some] at he
      obtain ⟨hltk, he⟩ := he
      rw [List.take_take, min_eq_left hltk.le]
      exact hfront l hltk e he hany
  obtain ⟨pre, post, hkept, hsub, -⟩ := hstays
  rw [← hsplit] at hkept
  -- the first payload reference left that the scan accepts has the reference `r`
  obtain ⟨j, hfind, hjr⟩ : ∃ j, (pre ++ i :: post).find? (fun j => j.matchesRef r) = some j ∧
      j.IsRef r.key := by
    rw [List.find?_append]
    cases hpre : pre.find? fun j => j.matchesRef r with
    | some j =>
      refine ⟨j, rfl, hfirst j (hsub.subset (List.mem_of_find?_eq_some hpre)) ?_⟩
      simpa using List.find?_some hpre
    | none => exact ⟨i, by simp [matchesRef_of_isRef hir], hir⟩
  refine ⟨_, hmap, ?_⟩
  have hmem := mem_giveAll hr hfind
  rw [← hkept, ← hleft, ← referenceRequests_pinned hrefs, ← (serve_leftFrom _ hlen).1] at hmem
  obtain ⟨t, ht, hj⟩ := List.mem_filterMap.mp hmem
  exact ⟨t, ht, j, hj, hjr⟩

/-! ## What is left when all is found -/

/-- An unconstrained reference takes one slot, before every slot that is taken after it. -/
theorem unconstrained_slot
    (h : assignAll (matchReference tx.referenceInputs) references
      (List.replicate tx.referenceInputs.length false) = some map)
    (hl : references[l]? = some tirRef) (hany : isUnconstrained tirRef = true) (hlk : l < k)
    {slots : List ℕ} (hmap : map[k]? = some slots) {s : ℕ} (hs : s ∈ slots) :
    ∃ t, map[l]? = some [t] ∧ t < s := by
  obtain ⟨u, hlen, -, hmapl, -, hfree⟩ :=
    assignAll_entry (fun _ _ _ _ hm => matchReference_serve hm) List.length_replicate h hl
  obtain ⟨-, hnodup, -⟩ := assignAll_spec (Q := fun _ _ => True)
    (fun _ _ _ _ hu hm => ⟨matchReference_claims hu hm, trivial⟩) h
  have hsfree : u[s]? = some false := by
    refine hfree s (List.mem_flatten.mpr ⟨slots, ?_, hs⟩)
    refine List.mem_of_getElem? (i := k - l) ?_
    rw [List.getElem?_drop, Nat.add_sub_cancel' hlk.le, hmap]
  have hlt : s < tx.referenceInputs.length := hlen ▸ (List.getElem?_eq_some_iff.mp hsfree).1
  have hfit : FreeFit tx.referenceInputs u (fun _ => true) s :=
    ⟨hsfree, tx.referenceInputs[s], List.getElem?_eq_getElem hlt, rfl⟩
  obtain ⟨t, u', hclaim, -, -⟩ := claim_once_of_freeFit hlen hfit
  have hle : t ≤ s := claim_once_le hlen hfit (by simp [hclaim])
  have hentry : map[l]? = some [t] := by
    rw [hmapl, referenceRequests_unconstrained hany]
    simp [serve, hclaim]
  refine ⟨t, hentry, lt_of_le_of_ne hle fun heq => ?_⟩
  -- no slot is taken twice
  have hsame := index_eq_of_nodup_flatten hnodup hentry hmap (List.mem_singleton.mpr rfl) (heq ▸ hs)
  omega

theorem slot_unique (hdistinct : DistinctReferences tx) {s t : ℕ} {j : TransactionInput}
    (hs : tx.referenceInputs[s]? = some i) (ht : tx.referenceInputs[t]? = some j)
    (hkey : i.key = j.key) : s = t := by
  have hmaps : (tx.referenceInputs.map TransactionInput.key)[s]? = some i.key := by
    rw [List.getElem?_map, hs]
    rfl
  have hmapt : (tx.referenceInputs.map TransactionInput.key)[t]? = some i.key := by
    rw [List.getElem?_map, ht, hkey]
    rfl
  have hlt := (List.getElem?_eq_some_iff.mp hmaps).1
  exact (List.Nodup.getElem_inj_iff hdistinct).mp
    ((List.getElem?_eq_some_iff.mp hmaps).2.trans (List.getElem?_eq_some_iff.mp hmapt).2.symm)

/-- Where all lists find their references, no list pins what another entry takes. -/
theorem entry_of_covered (hdistinct : DistinctReferences tx)
    (hnodup : map.flatten.Nodup) (hcovered : ReferencesCovered tx references map)
    (hl : references[l]? = some tirRef) (hr : r ∈ pinnedRefs tirRef) {slots : List ℕ}
    (hmap : map[k]? = some slots) {s : ℕ} (hs : s ∈ slots)
    (hi : tx.referenceInputs[s]? = some i) (hir : i.matchesRef r = true) : l = k := by
  cases hrefs : constUtxoRefs tirRef with
  | none => simp [pinnedRefs, hrefs] at hr
  | some refs =>
    obtain ⟨slots', hmap', t, ht, j, hj, hjr⟩ :=
      hcovered l tirRef refs hl hrefs r ((mem_pinnedRefs hrefs).mp hr)
    have hkey : i.key = j.key :=
      (matchesRef_iff_key.mp hir).trans (matchesRef_iff_key.mp (matchesRef_of_isRef hjr)).symm
    have hst := slot_unique hdistinct hi hj hkey
    exact index_eq_of_nodup_flatten hnodup hmap' hmap ht (hst ▸ hs)

/-- The slots that the unconstrained references up to position `l` take come before `s`, and no
    list before `l` pins what is in them. -/
theorem unconstrained_slots (hdistinct : DistinctReferences tx)
    (h : assignAll (matchReference tx.referenceInputs) references
      (List.replicate tx.referenceInputs.length false) = some map)
    (hcovered : ReferencesCovered tx references map) (hlk : l < k) {slots : List ℕ}
    (hmap : map[k]? = some slots) {s : ℕ} (hs : s ∈ slots)
    (hlt : s < tx.referenceInputs.length) :
    List.Forall₂ (fun e m => isUnconstrained e = true → ∃ t, m = [t] ∧
      ∃ j, (tx.referenceInputs.take s)[t]? = some j ∧ (!pinnedBy (references.take l) j) = true)
      (references.take (l + 1)) (map.take (l + 1)) := by
  obtain ⟨hentries, hnodup, -⟩ := assignAll_spec (Q := fun _ _ => True)
    (fun _ _ _ _ hu hm => ⟨matchReference_claims hu hm, trivial⟩) h
  have hlength := hentries.length_eq
  refine List.forall₂_iff_get.mpr ⟨by simp [hlength], fun n hn hn' hany => ?_⟩
  have hnl : n < l + 1 := by
    rw [List.length_take] at hn
    omega
  rw [List.get_eq_getElem, List.getElem_take] at hany ⊢
  have hnref : n < references.length := by
    rw [List.length_take] at hn
    omega
  have he : references[n]? = some references[n] := List.getElem?_eq_getElem hnref
  obtain ⟨t, ht, hts⟩ := unconstrained_slot h he hany (show n < k by omega) hmap hs
  have hj : tx.referenceInputs[t]? = some tx.referenceInputs[t] :=
    List.getElem?_eq_getElem (hts.trans hlt)
  refine ⟨t, (List.getElem?_eq_some_iff.mp ht).2, tx.referenceInputs[t],
    by rw [List.getElem?_take_of_lt hts, hj], ?_⟩
  rw [Bool.not_eq_true', pinnedBy, List.any_eq_false]
  intro q hq hjq
  obtain ⟨e, he', hqe⟩ := List.mem_flatMap.mp hq
  obtain ⟨m, hm⟩ := List.mem_iff_getElem?.mp (List.mem_of_mem_take he')
  -- the list would miss what the unconstrained reference took
  have heq := entry_of_covered hdistinct hnodup hcovered hm hqe ht (List.mem_singleton.mpr rfl)
    hj hjq
  cases heq
  cases he.symm.trans hm
  have hnone : constUtxoRefs references[n] = none := Option.isNone_iff_eq_none.mp hany
  simp [pinnedRefs, hnone] at hqe

/-- **References that are found were left**, in a transaction without repeated references. -/
theorem spared_of_covered (hdistinct : DistinctReferences tx)
    (h : assignAll (matchReference tx.referenceInputs) references
      (List.replicate tx.referenceInputs.length false) = some map)
    (hcovered : ReferencesCovered tx references map) : ReferencesSpared tx references := by
  intro k tirRef refs hk hrefs r hr
  obtain ⟨hentries, hnodup, hrange⟩ := assignAll_spec (Q := fun _ _ => True)
    (fun _ _ _ _ hu hm => ⟨matchReference_claims hu hm, trivial⟩) h
  obtain ⟨slots, hmap, s, hs, i, hi, hir⟩ := hcovered k tirRef refs hk hrefs r hr
  constructor
  · rintro q hq rfl
    obtain ⟨e, he, hqe⟩ := List.mem_flatMap.mp hq
    obtain ⟨l, hl⟩ := List.mem_iff_getElem?.mp he
    rw [List.getElem?_take, Option.ite_none_right_eq_some] at hl
    obtain ⟨hlk, hl⟩ := hl
    have heq := entry_of_covered hdistinct hnodup hcovered hl hqe hmap hs hi
      (matchesRef_of_isRef hir)
    omega
  · refine ⟨s, i, hi, hir, fun j hj hjr => ?_, fun l hlk e hl hany => ?_⟩
    · obtain ⟨t, ht⟩ := List.mem_iff_getElem?.mp hj
      rw [List.getElem?_take, Option.ite_none_right_eq_some] at ht
      obtain ⟨hts, ht⟩ := ht
      have hkey : j.key = i.key :=
        (matchesRef_iff_key.mp hjr).trans (matchesRef_iff_key.mp (matchesRef_of_isRef hir)).symm
      have heq := slot_unique hdistinct ht hi hkey
      omega
    · -- the slots that the unconstrained references up to this one take, all before `s`
      have hlast : references.take (l + 1) = references.take l ++ [e] := by
        rw [List.take_add_one, hl]
        rfl
      obtain ⟨ts, hsub, hcount, hgood⟩ := exists_sublist_of_forall₂ (unconstrained_slots hdistinct
        h hcovered hlk hmap hs (List.getElem?_eq_some_iff.mp hi).1)
      have hts : ts.Nodup := (hnodup.sublist (List.take_sublist _ _).flatten).sublist hsub
      have hle := length_le_countP hts hgood
      rw [hcount, hlast, List.countP_append, List.countP_singleton, if_pos hany] at hle
      omega

end References

/-- **Pinned references of an accepted transaction.** They are all covered if each is left for
    its list, by the template and the order of the payload references; and only then, where the
    payload has no reference twice. -/
theorem references_covered_iff (P : Pallas) (specialized : Tir.Tx) (payload : CardanoPayload)
    (tx : MultiEraTx) (profileName txName : String) (a : MatchAssignment)
    (hparse : payload.parsed P = .ok tx)
    (hmatch : matchTx P specialized payload profileName txName = .ok (some a)) :
    (ReferencesSpared tx specialized.references →
      ReferencesCovered tx specialized.references a.referenceMap) ∧
    (DistinctReferences tx → ReferencesCovered tx specialized.references a.referenceMap →
      ReferencesSpared tx specialized.references) := by
  obtain ⟨-, -, -, -, href⟩ := matchTx_eq hparse hmatch
  constructor
  · intro hspared k tirRef refs hk hrefs r hr
    exact covered_of_spared href hk hrefs hr (hspared k tirRef refs hk hrefs r hr)
  · intro hdistinct hcovered
    exact spared_of_covered hdistinct href hcovered

namespace Sample

def threeRefsHash : Hash 32 :=
  ⟨[0xe9, 0x52, 0x3b, 0x44, 0x1f, 0x02, 0x11, 0xad, 0xe7, 0x4f, 0xbc, 0xeb, 0x6c, 0xe0, 0x90, 0x20,
    0xb5, 0xc0, 0xce, 0x46, 0xb2, 0x70, 0xd9, 0x99, 0x90, 0x27, 0xed, 0x77, 0xbe, 0xa2, 0x68, 0x36],
    rfl⟩

def threeRefsBody : ByteBuf :=
  [0xa4, 0x00, 0x81, 0x82, 0x58, 0x20] ++ spentTx.bytes ++ [0x00, 0x01, 0x81] ++
    outputCbor scriptAddress ++ [0x02, 0x1a, 0x00, 0x03, 0x0d, 0x40, 0x12, 0x83, 0x82, 0x58, 0x20]
    ++ spentTx.bytes ++ [0x01, 0x82, 0x58, 0x20] ++ spentTx.bytes ++ [0x02, 0x82, 0x58, 0x20] ++
    spentTx.bytes ++ [0x03]

/-- The sample transaction with outputs 1, 2 and 3 of the earlier one as reference inputs. -/
def threeRefsTx : MultiEraTx :=
  { scriptTx with
    hash := threeRefsHash
    cbor := 0x84 :: threeRefsBody ++ [0xa0, 0xf5, 0xf6]
    referenceInputs := [⟨spentTx, 1⟩, ⟨spentTx, 2⟩, ⟨spentTx, 3⟩] }

/-- A template with an unconstrained reference and then a constant list of outputs of the
    earlier transaction. -/
def pinsAfter (indices : List UInt32) : Tir.Tx :=
  { templateOf [] [] with
    references := [runtime "oracle", .utxoRefs (indices.map fun index => ⟨spentTx.bytes, index⟩)] }

end Sample

set_option maxRecDepth 4000 in
/-- The unconstrained reference takes output 1, and the list pins the other two. -/
theorem references_covered_iff_pinsAfter :
    ReferencesCovered Sample.threeRefsTx (Sample.pinsAfter [2, 3]).references [[0], [1, 2]] := by
  refine (references_covered_iff (Sample.pallasOf Sample.threeRefsTx) (Sample.pinsAfter [2, 3])
    (Sample.payloadOf Sample.threeRefsTx) Sample.threeRefsTx "" ""
    ⟨"", "", [], [], [[0], [1, 2]], [], [], []⟩ (Sample.parsed_payloadOf _) rfl).1 ?_
  intro k tirRef refs hk hrefs r hr
  rcases k with _ | _ | k
  · cases hk
    cases hrefs
  · cases hk
    cases hrefs
    have hfront : ∀ s ∈ [1, 2], ∀ l < 1, ∀ tirRef,
        (Sample.pinsAfter [2, 3]).references[l]? = some tirRef → isUnconstrained tirRef = true →
          ((Sample.pinsAfter [2, 3]).references.take l).countP isUnconstrained <
            (Sample.threeRefsTx.referenceInputs.take s).countP fun j =>
              !pinnedBy ((Sample.pinsAfter [2, 3]).references.take l) j := by
      intro s hs l hl tirRef _ _
      cases Nat.lt_one_iff.mp hl
      rcases List.mem_pair.mp hs with rfl | rfl <;> decide
    have hfit : ∀ j ∈ Sample.threeRefsTx.referenceInputs, j.index.toNat < 2 ^ 32 := by decide
    have hexact : ∀ (r : Tir.UtxoRef) (s : ℕ), ∀ j ∈ Sample.threeRefsTx.referenceInputs.take s,
        j.matchesRef r = true → j.IsRef r.key := fun r s j hj hjr =>
      (matchesRef_iff (hfit j (List.mem_of_mem_take hj)) r).mp hjr
    have hr : r = ⟨Sample.spentTx.bytes, 2⟩ ∨ r = ⟨Sample.spentTx.bytes, 3⟩ := by
      simpa using hr
    rcases hr with rfl | rfl
    · exact ⟨by decide, 1, _, rfl, ⟨rfl, by decide⟩, hexact _ 1, hfront 1 (by simp)⟩
    · exact ⟨by decide, 2, _, rfl, ⟨rfl, by decide⟩, hexact _ 2, hfront 2 (by simp)⟩
  · cases hk

set_option maxRecDepth 4000 in
/-- The unconstrained reference comes first and takes output 1, which the second one pins. -/
theorem references_not_covered :
    ∃ fp a, extract Sample.tx3 Sample.pairTii "lock" "preview"
        (Sample.pinsAfter [1, 2]) ∅ = .ok fp ∧
      (Sample.payloadOf Sample.threeRefsTx).parsed (Sample.pallasOf Sample.threeRefsTx) =
        .ok Sample.threeRefsTx ∧
      fp.matchesSummary (summarizeTx (Sample.pallasOf Sample.threeRefsTx)
        (Sample.payloadOf Sample.threeRefsTx) Sample.threeRefsTx) = true ∧
      matchTx (Sample.pallasOf Sample.threeRefsTx) (Sample.pinsAfter [1, 2])
        (Sample.payloadOf Sample.threeRefsTx) "" "" = .ok (some a) ∧
      ¬ReferencesCovered Sample.threeRefsTx
        (Sample.pinsAfter [1, 2]).references a.referenceMap := by
  refine ⟨_, ⟨"", "", [], [], [[0], [1]], [], [], []⟩, rfl, Sample.parsed_payloadOf _,
    by decide +kernel, rfl, fun h => ?_⟩
  obtain ⟨slots, hslots, s, hs, i, hi, hir⟩ := h 1 _ _ rfl rfl ⟨Sample.spentTx.bytes, 1⟩ (by simp)
  cases hslots
  rw [List.mem_singleton.mp hs] at hi
  cases hi
  exact absurd hir.2 (by decide)

end Tx3Lift
