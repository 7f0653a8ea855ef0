import Tx3Lift.Tracker.Replay

/-!
# Interrupted delivery

Every session starts at the stored cursor, so the upstream sends the block of the cursor
again. This is at-least-once delivery.

* `applyTx_again`: handling an event again, while the cursor is on its block, changes
  nothing.
* `resume_point`: what a session sends starts with events of the block of the cursor that
  were handled already.
* `runLoop_interrupted`: an interrupted run ends with the store of the uninterrupted one.
-/

namespace Tx3Lift

open Lib

/-! ## The upstream -/

/-- What the upstream sends for an intersect: its chain from that block on, this block included,
    or its whole chain if it is not asked for a block of it. -/
def ChainStream.deliveriesFrom {P : Pallas} (stream : ChainStream P) (intersect : List BlockRef) :
    List (Delivery P) :=
  match intersect with
  | [] => stream.deliveries
  | ref :: _ =>
    if stream.deliveries.any fun d => decide (d.block.point.blockRef = ref) then
      stream.deliveries.dropWhile fun d => decide (d.block.point.blockRef ≠ ref)
    else stream.deliveries

theorem blockRef_inj {p q : ChainPoint} (h : p.blockRef = q.blockRef) : p = q := by
  cases p
  cases q
  simp only [ChainPoint.blockRef, BlockRef.mk.injEq, Hash.bytes_inj, and_true] at h
  rw [ChainPoint.mk.injEq]
  exact h

/-- Asked for a block of its chain, the upstream starts there. -/
theorem ChainStream.deliveriesFrom_block {P : Pallas} (stream : ChainStream P)
    {before after : List (Delivery P)} {d : Delivery P}
    (h : stream.deliveries = before ++ d :: after) :
    stream.deliveriesFrom [d.block.point.blockRef] = d :: after := by
  have hany : stream.deliveries.any
      (fun d' => decide (d'.block.point.blockRef = d.block.point.blockRef)) = true := by
    simp [h]
  have hbefore : ∀ d' ∈ before, d'.block.point.blockRef ≠ d.block.point.blockRef := by
    intro d' hd' heq
    have hhash : d'.block.hash = d.block.hash := congrArg ChainPoint.hash (blockRef_inj heq)
    have hnodup := stream.hashes
    rw [h, List.map_append] at hnodup
    exact (List.nodup_append.mp hnodup).2.2 _ (List.mem_map_of_mem hd') _
      (List.mem_map_of_mem List.mem_cons_self) hhash
  rw [deliveriesFrom, if_pos hany, h, List.dropWhile_append_of_pos]
  · simp
  · intro d' hd'
    simpa using hbefore d' hd'

/-- What is sent is an end of the chain. -/
theorem ChainStream.deliveriesFrom_suffix {P : Pallas} (stream : ChainStream P)
    (intersect : List BlockRef) :
    stream.deliveriesFrom intersect <:+ stream.deliveries := by
  unfold deliveriesFrom
  split
  · exact List.suffix_rfl
  · split_ifs
    · exact List.dropWhile_suffix _
    · exact List.suffix_rfl

/-- An interruption after which `run` reconnects. -/
inductive Interruption where
  | unreachable
  | refused (code : Code) (transient : isTransient code = true)
  | closed (delivered : ℕ)
  | broken (delivered : ℕ) (code : Code) (transient : isTransient code = true)

/-- An interrupted attempt. -/
def ChainStream.interrupted {P : Pallas} (stream : ChainStream P) (i : Interruption)
    (intersect : List BlockRef) : Attempt :=
  let actions := applies (eventsOf (stream.deliveriesFrom intersect))
  match i with
  | .unreachable => .transportError
  | .refused code _ => .subscribeError code
  | .closed delivered => .streamed (actions.take delivered) .closed
  | .broken delivered code _ => .streamed (actions.take delivered) (.status code)

/-- An attempt that delivers everything before it ends. -/
def ChainStream.uninterrupted {P : Pallas} (stream : ChainStream P) (ending : StreamEnd)
    (intersect : List BlockRef) : Attempt :=
  .streamed (applies (eventsOf (stream.deliveriesFrom intersect))) ending

/-! ## Handling an event again -/

section Again

variable {D : Deps} {specialized : List SpecializedTii} {mode : MatchMode}

theorem store_ext {s t : Store} (h : s.matchesTable = t.matchesTable)
    (hc : s.cursorRow = t.cursorRow) : s = t := by
  cases s
  cases t
  simp only at h hc
  subst h hc
  rfl

/-- Keys of handled events stay in the table while only Applies are handled. -/
theorem keys_of_run {es : List AnyChainTx} {store store' : Store}
    (h : run (applyTx D specialized mode) store es = .ok store') :
    (∀ k ∈ store.matchesTable.map MatchesRow.key, k ∈ store'.matchesTable.map MatchesRow.key) ∧
      ∀ e ∈ es, ∀ row ∈ rowsOf D specialized mode e,
        row.key ∈ store'.matchesTable.map MatchesRow.key := by
  induction es generalizing store with
  | nil =>
    cases h
    exact ⟨fun _ hk => hk, by simp⟩
  | cons e es ih =>
    obtain ⟨mid, hmid, hrest⟩ := run_cons_ok.mp h
    obtain ⟨hkeep, hnew⟩ := ih hrest
    have hstep : (∀ k ∈ store.matchesTable.map MatchesRow.key,
        k ∈ mid.matchesTable.map MatchesRow.key) ∧ ∀ row ∈ rowsOf D specialized mode e,
          row.key ∈ mid.matchesTable.map MatchesRow.key := by
      rcases applyTx_eq.mp hmid with ⟨happly, rfl⟩ | ⟨cursor, rows, happly, rfl⟩
      · exact ⟨fun _ hk => hk, by simp [rowsOf, happly]⟩
      · rw [rowsOf_eq happly, matches_applyBlock]
        exact ⟨fun k hk => (mem_keys_insertAll MatchesRow.key).mpr (Or.inl hk),
          fun row hrow => (mem_keys_insertAll MatchesRow.key).mpr
            (Or.inr (List.mem_map_of_mem hrow))⟩
    refine ⟨fun k hk => hkeep k (hstep.1 k hk), fun e' he' row hrow => ?_⟩
    rcases List.mem_cons.mp he' with rfl | he'
    · exact hkeep _ (hstep.2 row hrow)
    · exact hnew e' he' row hrow

/-- An event that was handled already, on the block of the cursor, changes nothing. -/
theorem applyTx_again {es : List AnyChainTx} {store : Store}
    (h : run (applyTx D specialized mode) Store.empty es = .ok store) {e : AnyChainTx} (he : e ∈ es)
    {block : MultiEraBlock} {tx : MultiEraTx} (hc : Carries D.toPallas e block tx)
    (hcursor : store.cursorRow = some block.point.toRow) :
    applyTx D specialized mode store e = .ok store := by
  obtain ⟨r, hr⟩ := applyRows_of_run h e he
  obtain ⟨rows, rfl⟩ := applyRows_of_carries hc hr
  refine applyTx_eq.mpr (Or.inr ⟨_, rows, hr, store_ext ?_ hcursor⟩)
  rw [matches_applyBlock, insertAll_present]
  intro row hrow
  exact (keys_of_run h).2 e he row (by rwa [rowsOf_eq hr])

/-- Events that change nothing. -/
theorem run_again {es : List AnyChainTx} {store : Store}
    (h : ∀ e ∈ es, applyTx D specialized mode store e = .ok store) :
    run (applyTx D specialized mode) store es = .ok store := by
  induction es with
  | nil => rfl
  | cons e es ih =>
    exact run_cons_ok.mpr ⟨store, h e (by simp), ih fun e he => h e (by simp [he])⟩

end Again

/-! ## Where a session resumes -/

section Resume

variable {D : Deps} {cfg : Config} {specialized : List SpecializedTii}
  {stream : ChainStream D.toPallas}

/-- A session sends events of the block of the cursor that were handled already, then the
    events that were not. -/
theorem resume_point {start : List BlockRef} (hstart : intersectBlockRefs cfg.intersect = .ok start)
    {pre : List AnyChainTx} (hp : pre <+: eventsOf (stream.deliveriesFrom start)) {store : Store}
    (h : run (applyTx D specialized cfg.mode) Store.empty pre = .ok store) :
    ∃ intersect again rest, resumeIntersect cfg store = .ok intersect ∧
      eventsOf (stream.deliveriesFrom intersect) = again ++ rest ∧
      pre ++ rest = eventsOf (stream.deliveriesFrom start) ∧
      ∀ e ∈ again, applyTx D specialized cfg.mode store e = .ok store := by
  rcases stream_cursor hp h with
    ⟨rfl, rfl⟩ | ⟨before, d, after, part, hsplit, -, rfl, hpart, hcursor⟩
  · exact ⟨start, [], _, hstart, rfl, rfl, by simp⟩
  · obtain ⟨front, hfront⟩ := stream.deliveriesFrom_suffix start
    obtain ⟨later, hlater⟩ := hpart
    have hfrom : stream.deliveriesFrom [d.block.point.blockRef] = d :: after :=
      stream.deliveriesFrom_block (by rw [← hfront, hsplit, ← List.append_assoc])
    refine ⟨[d.block.point.blockRef], part, later ++ eventsOf after, ?_, ?_, ?_, ?_⟩
    · rw [resumeIntersect, cursor_of_row hcursor]
      rfl
    · rw [hfrom, eventsOf_cons, ← hlater, List.append_assoc]
    · rw [hsplit, eventsOf_append, eventsOf_cons, ← hlater, List.append_assoc, List.append_assoc]
    · intro e he
      obtain ⟨tx, hc⟩ := d.carries (e := e) (by rw [← hlater]; exact List.mem_append_left _ he)
      exact applyTx_again h (List.mem_append_right _ he) hc hcursor

/-- A stream whose responses are handled without error. -/
theorem streamLoop_ok {ending : StreamEnd} {actions : List (Option Action)} {store store' : Store}
    (h : run (handleAction D cfg specialized) store actions = .ok store') :
    streamLoop D cfg specialized store ending actions =
      streamLoop D cfg specialized store' ending [] := by
  induction actions generalizing store with
  | nil =>
    cases h
    rfl
  | cons a actions ih =>
    obtain ⟨mid, hmid, hrest⟩ := run_cons_ok.mp h
    rw [streamLoop, hmid]
    exact ih hrest

end Resume

/-! ## Interrupted runs -/

section Interrupted

variable {D : Deps} {cfg : Config} {specialized : List SpecializedTii}
  {stream : ChainStream D.toPallas}

/-- The tracker handled `pre`, the first events of its chain, and holds what they left. -/
def Resumable (D : Deps) (cfg : Config) (specialized : List SpecializedTii)
    (events : List AnyChainTx) (store : Store) : Prop :=
  ∃ pre, pre <+: events ∧ run (applyTx D specialized cfg.mode) Store.empty pre = .ok store

/-- An Apply that is handled leaves a store. -/
theorem applyTx_ok {mode : MatchMode} {store : Store} {e : AnyChainTx}
    (h : ∃ r, applyRows D specialized mode e = .ok r) :
    ∃ store', applyTx D specialized mode store e = .ok store' := by
  obtain ⟨r, hr⟩ := h
  cases r with
  | none => exact ⟨store, applyTx_eq.mpr (Or.inl ⟨hr, rfl⟩)⟩
  | some cr => exact ⟨_, applyTx_eq.mpr (Or.inr ⟨cr.1, cr.2, hr, rfl⟩)⟩

/-- What is sent from `pre` on is handled as in the uninterrupted run. -/
theorem run_rest {mode : MatchMode} {pre rest part : List AnyChainTx} {store : Store}
    (hpre : run (applyTx D specialized mode) Store.empty pre = .ok store)
    (hhandled : ∀ e ∈ rest, ∃ r, applyRows D specialized mode e = .ok r) (hpart : part <+: rest) :
    ∃ store', run (applyTx D specialized mode) store part = .ok store' ∧
      run (applyTx D specialized mode) Store.empty (pre ++ part) = .ok store' := by
  have hstep : ∀ e ∈ part, ∀ u, ∃ t, applyTx D specialized mode u e = .ok t :=
    fun e he _ => applyTx_ok (hhandled e (hpart.subset he))
  obtain ⟨store', hrun⟩ := run_of_forall hstep store
  exact ⟨store', hrun, run_append_ok.mpr ⟨store, hpre, hrun⟩⟩

/-- A stream that ends after `n` responses ends in a resumable store, and one that delivers
    everything in the store of the uninterrupted run. -/
theorem session_resumes {start : List BlockRef}
    (hstart : intersectBlockRefs cfg.intersect = .ok start)
    (hhandled : ∀ e ∈ stream.events, ∃ r, applyRows D specialized cfg.mode e = .ok r)
    {store : Store}
    (h : Resumable D cfg specialized (eventsOf (stream.deliveriesFrom start)) store) :
    ∃ intersect, resumeIntersect cfg store = .ok intersect ∧
      (∀ n, ∃ store', run (handleAction D cfg specialized) store
          ((applies (eventsOf (stream.deliveriesFrom intersect))).take n) = .ok store' ∧
        Resumable D cfg specialized (eventsOf (stream.deliveriesFrom start)) store') ∧
      ∃ store', run (handleAction D cfg specialized) store
          (applies (eventsOf (stream.deliveriesFrom intersect))) = .ok store' ∧
        run (applyTx D specialized cfg.mode) Store.empty
          (eventsOf (stream.deliveriesFrom start)) = .ok store' := by
  obtain ⟨pre, hp, hpre⟩ := h
  obtain ⟨intersect, again, rest, hintersect, hsent, hall, hagain⟩ := resume_point hstart hp hpre
  have hrest : ∀ e ∈ rest, ∃ r, applyRows D specialized cfg.mode e = .ok r := by
    intro e he
    have hmem : e ∈ eventsOf (stream.deliveriesFrom start) := by
      rw [← hall]
      exact List.mem_append_right _ he
    obtain ⟨d, hd, hde⟩ := List.mem_flatMap.mp hmem
    exact hhandled e (List.mem_flatMap.mpr ⟨d, (stream.deliveriesFrom_suffix start).subset hd, hde⟩)
  refine ⟨intersect, hintersect, fun n => ?_, ?_⟩
  · obtain ⟨store', hrun, hfull⟩ :=
      run_rest hpre hrest (List.take_prefix (n - again.length) rest)
    refine ⟨store', ?_, pre ++ rest.take (n - again.length), ?_, hfull⟩
    · rw [applies, ← List.map_take, ← applies, run_applies, hsent, List.take_append]
      exact run_append_ok.mpr
        ⟨store, run_again fun e he => hagain e (List.mem_of_mem_take he), hrun⟩
    · rw [← hall]
      exact (List.prefix_append_right_inj _).mpr (List.take_prefix _ _)
  · obtain ⟨store', hrun, hfull⟩ := run_rest hpre hrest List.prefix_rfl
    refine ⟨store', ?_, by rw [← hall]; exact hfull⟩
    rw [run_applies, hsent]
    exact run_append_ok.mpr ⟨store, run_again hagain, hrun⟩

/-- The last session of a run leaves the store of its stream. -/
theorem streamLoop_end (store : Store) (ending : StreamEnd) :
    (streamLoop D cfg specialized store ending []).1 = store := by
  cases ending <;> rfl

/-- One round of the loop whose responses are handled and that reconnects. -/
theorem runLoop_reconnect {store store' : Store} {intersect : List BlockRef}
    (hintersect : resumeIntersect cfg store = .ok intersect)
    {attempt : List BlockRef → Attempt}
    (h : streamSession D cfg specialized store (attempt intersect) = (store', .ok .reconnect))
    (rest : List (List BlockRef → Attempt)) :
    runLoop D cfg specialized store (attempt :: rest) = runLoop D cfg specialized store' rest := by
  rw [runLoop, hintersect]
  simp only [h]

/-- An interrupted session reconnects with a resumable store. -/
theorem interrupted_resumes {start : List BlockRef}
    (hstart : intersectBlockRefs cfg.intersect = .ok start)
    (hhandled : ∀ e ∈ stream.events, ∃ r, applyRows D specialized cfg.mode e = .ok r)
    (cut : Interruption) {store : Store}
    (h : Resumable D cfg specialized (eventsOf (stream.deliveriesFrom start)) store) :
    ∃ intersect store', resumeIntersect cfg store = .ok intersect ∧
      streamSession D cfg specialized store (stream.interrupted cut intersect) =
        (store', .ok .reconnect) ∧
      Resumable D cfg specialized (eventsOf (stream.deliveriesFrom start)) store' := by
  obtain ⟨intersect, hintersect, hcut, -⟩ := session_resumes hstart hhandled h
  cases cut with
  | unreachable => exact ⟨intersect, store, hintersect, rfl, h⟩
  | refused code transient =>
    refine ⟨intersect, store, hintersect, ?_, h⟩
    simp only [ChainStream.interrupted, streamSession, transient, if_true]
    rfl
  | closed delivered =>
    obtain ⟨store', hrun, hstore'⟩ := hcut delivered
    refine ⟨intersect, store', hintersect, ?_, hstore'⟩
    rw [ChainStream.interrupted, streamSession, streamLoop_ok hrun]
    rfl
  | broken delivered code transient =>
    obtain ⟨store', hrun, hstore'⟩ := hcut delivered
    refine ⟨intersect, store', hintersect, ?_, hstore'⟩
    rw [ChainStream.interrupted, streamSession, streamLoop_ok hrun, streamLoop]
    simp only [transient, if_true]
    rfl

/-- The store of a run that is not interrupted any more. -/
theorem uninterrupted_store {start : List BlockRef}
    (hstart : intersectBlockRefs cfg.intersect = .ok start)
    (hhandled : ∀ e ∈ stream.events, ∃ r, applyRows D specialized cfg.mode e = .ok r)
    (ending : StreamEnd) {store : Store}
    (h : Resumable D cfg specialized (eventsOf (stream.deliveriesFrom start)) store) :
    run (applyTx D specialized cfg.mode) Store.empty (eventsOf (stream.deliveriesFrom start)) =
      .ok (runLoop D cfg specialized store [stream.uninterrupted ending]).1 := by
  obtain ⟨intersect, hintersect, -, store', hrun, hfull⟩ := session_resumes hstart hhandled h
  have hsession : (streamSession D cfg specialized store
      (stream.uninterrupted ending intersect)).1 = store' := by
    rw [ChainStream.uninterrupted, streamSession, streamLoop_ok hrun, streamLoop_end]
  have hloop : (runLoop D cfg specialized store [stream.uninterrupted ending]).1 = store' := by
    rw [runLoop, hintersect]
    simp only
    rcases hs : streamSession D cfg specialized store (stream.uninterrupted ending intersect) with
      ⟨last, e | outcome⟩
    · rw [hs] at hsession
      exact hsession
    · rw [hs] at hsession
      cases outcome
      · exact hsession
      · exact hsession
  rw [hfull, hloop]

/-- **At-least-once delivery loses and duplicates nothing.** Wherever the delivery of a chain
    is interrupted, and however often, the tracker ends with the table and the cursor of the
    uninterrupted run. -/
theorem runLoop_interrupted (D : Deps) (cfg : Config) (specialized : List SpecializedTii)
    (stream : ChainStream D.toPallas) (cuts : List Interruption) (ending : StreamEnd)
    (hhandled : ∀ e ∈ stream.events, ∃ r, applyRows D specialized cfg.mode e = .ok r) :
    (runLoop D cfg specialized Store.empty
        (cuts.map stream.interrupted ++ [stream.uninterrupted ending])).1 =
      (runLoop D cfg specialized Store.empty [stream.uninterrupted ending]).1 := by
  cases hstart : intersectBlockRefs cfg.intersect with
  | error e =>
    -- a configured hash that is not hexadecimal ends both runs before the first request
    have hresume : resumeIntersect cfg Store.empty = .error e := hstart
    cases cuts <;> simp [runLoop, hresume]
  | ok start =>
    have hempty : Resumable D cfg specialized (eventsOf (stream.deliveriesFrom start))
        Store.empty := ⟨[], List.nil_prefix, rfl⟩
    have hloop : ∀ (cuts : List Interruption) (store : Store),
        Resumable D cfg specialized (eventsOf (stream.deliveriesFrom start)) store →
        run (applyTx D specialized cfg.mode) Store.empty (eventsOf (stream.deliveriesFrom start)) =
          .ok (runLoop D cfg specialized store
            (cuts.map stream.interrupted ++ [stream.uninterrupted ending])).1 := by
      intro cuts
      induction cuts with
      | nil => exact fun store h => uninterrupted_store hstart hhandled ending h
      | cons cut cuts ih =>
        intro store h
        obtain ⟨intersect, store', hintersect, hsession, hstore'⟩ :=
          interrupted_resumes hstart hhandled cut h
        rw [List.map_cons, List.cons_append, runLoop_reconnect hintersect hsession]
        exact ih store' hstore'
    have hboth := (hloop cuts Store.empty hempty).symm.trans
      (uninterrupted_store hstart hhandled ending hempty)
    exact Except.ok.inj hboth

end Interrupted

set_option maxRecDepth 4000 in
theorem sampleStream_handled : ∀ e ∈ sampleStream.events,
    ∃ r, applyRows Sample.chainDeps [Sample.source] Sample.cfg.mode e = .ok r := by
  intro e he
  have he : e = Sample.envelope Sample.childBytes Sample.scriptTx ∨
      e = Sample.envelope Sample.childBytes Sample.scriptTx' := by
    simpa [ChainStream.events, eventsOf, sampleStream, Sample.parentDelivery,
      Sample.childDelivery] using he
  rcases he with rfl | rfl
  · exact ⟨_, rfl⟩
  · exact ⟨_, rfl⟩

/-- The connection is lost between the two transactions of one block, and once more before
    anything new is delivered. -/
theorem runLoop_interrupted_sample :
    (runLoop Sample.chainDeps Sample.cfg [Sample.source] Store.empty
        (List.map sampleStream.interrupted [.closed 1, .unreachable, .broken 1 .unavailable rfl] ++
          [sampleStream.uninterrupted .closed])).1 =
      (runLoop Sample.chainDeps Sample.cfg [Sample.source] Store.empty
        [sampleStream.uninterrupted .closed]).1 :=
  runLoop_interrupted Sample.chainDeps Sample.cfg [Sample.source] sampleStream
    [.closed 1, .unreachable, .broken 1 .unavailable rfl] .closed sampleStream_handled

end Tx3Lift
