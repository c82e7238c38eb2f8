import LedgerFeed.Proofs.Batch
import LedgerFeed.Proofs.Source

/-! Backfilling from an archive that holds what is asked of it. Every batch is taken to its end, so
the events of all ledgers up to the target are dealt with. -/

namespace LedgerFeed

variable {target expected : LedgerNumber} {ledgers : List RawLedger}

theorem le_of_mem_inSequence {ledger : RawLedger}
    (h : ledger ∈ inSequence target expected ledgers) : ledger.sequence ≤ target := by
  fun_induction inSequence target expected ledgers with
  | case1 | case3 | case4 => cases h
  | case2 _ _ _ _ ih => exact ih h
  | case5 _ _ hle =>
    obtain rfl := List.mem_singleton.mp h
    exact UInt32.not_lt.mp hle
  | case6 _ _ _ _ hle _ _ ih =>
    rcases List.mem_cons.mp h with rfl | h
    · exact UInt32.not_lt.mp hle
    · exact ih h

theorem skipsLedger_of_consecutive (h : Consecutive expected.toNat ledgers) :
    skipsLedger target expected ledgers = false := by
  fun_induction skipsLedger target expected ledgers with
  | case1 | case3 | case5 => rfl
  | case2 _ ledger _ hlt =>
    have := UInt32.lt_iff_toNat_lt.mp hlt
    have := h.head_eq
    omega
  | case4 _ ledger _ _ _ hne =>
    exact absurd (UInt32.toNat_inj.mp h.head_eq) hne
  | case6 _ _ _ _ _ _ hlast ih =>
    have htail := h.tail
    rw [← LedgerNumber.toNat_add_one hlast] at htail
    exact ih htail

theorem inSequence_ne_nil (h : Consecutive expected.toNat ledgers) (hne : ledgers ≠ [])
    (hle : expected ≤ target) : inSequence target expected ledgers ≠ [] := by
  cases ledgers with
  | nil => exact absurd rfl hne
  | cons ledger ledgers =>
    have heq : ledger.sequence = expected := UInt32.toNat_inj.mp h.head_eq
    rw [inSequence, heq, if_neg (UInt32.lt_irrefl _), if_neg (UInt32.not_lt.mpr hle),
      if_neg (by simp)]
    split <;> simp

theorem flatMap_payload_eq_run {s : Source} {decoder : Decoder} {first : Nat}
    (h : Consecutive first ledgers)
    (hr : ∀ ledger ∈ ledgers, decoder.ledgerEvents ledger = .ok (s.events ledger.sequence)) :
    ledgers.flatMap decoder.payload = s.run first ledgers.length := by
  rw [Source.run, ← h, List.flatMap_map, List.flatMap_def, List.flatMap_def]
  refine congrArg List.flatten (List.map_congr_left fun ledger hledger => ?_)
  rw [Decoder.payload_of_ok (hr ledger hledger), UInt32.ofNat_toNat]

/-- The archive holds the ledgers of a range: asked for some of them, it gives at least the first,
and then others without a break. -/
structure World.Archives {a : Assignment} (w : World a) (s : Source) (start stop : LedgerNumber) :
    Prop where
  gives : ∀ history next target, start ≤ next → next ≤ target → target ≤ stop →
    ∃ page, w.reply history (.ledgers (a.batchRequest next target)) = .ok page ∧
      page.ledgers ≠ [] ∧ Consecutive next.toNat page.ledgers ∧
      ∀ ledger ∈ page.ledgers, ledger.sequence ≤ stop →
        a.decoder.ledgerEvents ledger = .ok (s.events ledger.sequence)

variable {a : Assignment} {w : World a} {filters : List EventFilter} {s : Source}
  {start stop next : LedgerNumber}

namespace World

theorem Undisturbed.not_faltersIn (hw : w.Undisturbed filters) {before moments : List (Moment a)}
    {p q : Progress} (hl : w.Leads before p moments q) {sink sink' : Sink}
    (hread : ∀ ledger ∈ ledgers, ∃ raws, a.decoder.ledgerEvents ledger = .ok raws)
    (hdecodes : ∀ raw ∈ ledgers.flatMap a.decoder.payload,
      ∃ event, a.decoder.decode raw = .ok event) (error : IngestError) :
    ¬a.FaltersIn moments sink ledgers sink' error := by
  refine hw.unhindered.not_faltersIn hl fun ledger hledger => ?_
  obtain ⟨raws, hok⟩ := hread ledger hledger
  refine ⟨raws, hok, fun raw hraw => hdecodes raw (List.mem_flatMap.mpr ⟨ledger, hledger, ?_⟩)⟩
  rwa [Decoder.payload_of_ok hok]

theorem Archives.batch_leads (h : w.Archives s start stop) (hw : w.Undisturbed filters)
    (hs : s.Sound a.decoder start stop) (hstart : start ≤ next) (hle : next ≤ target)
    (hstop : target ≤ stop) {before : List (Moment a)} {sink : Sink}
    (hdealt : a.Dealt filters before sink (s.below start next)) :
    ∃ moments sink' p taken,
      w.Leads before (a.backfill ⟨false, filters⟩ sink next target) moments p ∧
      a.Dealt filters (moments ++ before) sink'
        (s.run start.toNat (next.toNat + taken - start.toNat)) ∧
      (next.toNat + taken = target.toNat + 1 ∧ p = a.endBackfill sink' target ∨
        0 < taken ∧ next.toNat + taken ≤ target.toNat ∧
          p = a.backfill ⟨false, filters⟩ sink' (next + UInt32.ofNat taken) target) := by
  have hle' := UInt32.le_iff_toNat_le.mp hle
  have hstop' := UInt32.le_iff_toNat_le.mp hstop
  obtain ⟨page, hr, hne, hpage, hgives⟩ := h.gives before next target hstart hle hstop
  have htaken : ∀ ledger ∈ inSequence target next page.ledgers,
      a.decoder.ledgerEvents ledger = .ok (s.events ledger.sequence) := by
    intro ledger hledger
    have hbelow := UInt32.le_trans (le_of_mem_inSequence hledger) hstop
    exact hgives ledger ((inSequence_sublist ..).subset hledger) hbelow
  have hrun := flatMap_payload_eq_run (consecutive_inSequence target next page.ledgers) htaken
  have hlen := length_inSequence page.ledgers (Nat.le_succ_of_le hle')
  have hsub : (s.below start next ++
      s.run next.toNat (inSequence target next page.ledgers).length).Sublist
        (s.between start stop) := s.below_append_sublist hstart (by omega)
  rcases Assignment.batch_leads (P := (· = ⟨false, filters⟩)) (fun h => h ▸ rfl) hw.signals before
    rfl sink hle hr with
    ⟨moments, events, sink', p, hl, hread, hend, hb⟩ | ⟨moments, events, sink', error, hl, hf, -⟩
  · have hmeasured := @Assignment.Dealt.quiet _ _ _ _ (sink.measure (.page .backfill)) _ hdealt []
      rfl rfl rfl
    have ht := hread.2
    rw [hw.signals, hrun] at ht
    have hdealt' := hmeasured.take ht hb.received (hs.distinct.sublist (hsub.map RawEvent.id))
    rw [s.below_append hstart] at hdealt'
    cases hend with
    | gap hgap =>
      -- a page that begins with the ledger asked for leaves no gap
      rcases hgap with hskips | hnone
      · rw [skipsLedger_of_consecutive hpage] at hskips
        cases hskips
      · exact absurd (List.eq_nil_of_length_eq_zero hnone) (inSequence_ne_nil hpage hne hle)
    | done hdone measured =>
      exact ⟨moments, { sink' with measured }, _, _, hl, hdealt'.quiet [] rfl rfl rfl,
        .inl ⟨hdone, rfl⟩⟩
    | more hpos hbelow measured hsignals =>
      subst hsignals
      exact ⟨moments, { sink' with measured }, _, _, hl, hdealt'.quiet [] rfl rfl rfl,
        .inr ⟨hpos, hbelow, rfl⟩⟩
  · -- nothing that the page holds makes the run falter
    have hreadable : ∀ ledger ∈ inSequence target next page.ledgers,
        ∃ raws, a.decoder.ledgerEvents ledger = .ok raws :=
      fun ledger hledger => ⟨_, htaken ledger hledger⟩
    refine absurd hf (hw.not_faltersIn hl hreadable ?_ error)
    intro raw hraw
    rw [hrun] at hraw
    exact hs.decodes raw (hsub.subset (List.mem_append_right _ hraw))

theorem Archives.backfill_leads (h : w.Archives s start stop) (hw : w.Undisturbed filters)
    (hs : s.Sound a.decoder start stop) (hstart : start ≤ next) (hle : next ≤ target)
    (hstop : target ≤ stop) {before : List (Moment a)} {sink : Sink}
    (hdealt : a.Dealt filters before sink (s.below start next)) :
    ∃ moments sink',
      w.Leads before (a.backfill ⟨false, filters⟩ sink next target) moments
        (a.endBackfill sink' target) ∧
      a.Dealt filters (moments ++ before) sink' (s.between start target) := by
  -- every batch leaves fewer ledgers to ask for
  induction hn : target.toNat - next.toNat using Nat.strongRecOn
    generalizing before sink next with
  | ind n ih =>
  have hstart' := UInt32.le_iff_toNat_le.mp hstart
  obtain ⟨moments, sink', p, taken, hl, hdealt', hend⟩ :=
    h.batch_leads hw hs hstart hle hstop hdealt
  rcases hend with ⟨hdone, rfl⟩ | ⟨hpos, hbelow, rfl⟩
  · rw [hdone] at hdealt'
    exact ⟨moments, sink', hl, hdealt'⟩
  · have hnext := LedgerNumber.toNat_add_ofNat (Nat.lt_of_le_of_lt hbelow target.toNat_lt_size)
    rw [← hnext] at hdealt' hbelow
    obtain ⟨later, sink'', hl', hdealt''⟩ := ih _ (by omega)
      (UInt32.le_iff_toNat_le.mpr (by omega)) (UInt32.le_iff_toNat_le.mpr hbelow) hdealt' rfl
    refine ⟨later ++ moments, sink'', hl.trans hl', ?_⟩
    rw [List.append_assoc]
    exact hdealt''

theorem Archives.begin_leads (h : w.Archives s start stop) (hw : w.Undisturbed filters)
    (hs : s.Sound a.decoder start stop) (hrequest : a.request = .archive start stop)
    (hle : start ≤ stop) {health : Health} (hr : w.reply [] (.health .archive) = .ok health)
    (hhealthy : health.healthy = true) (hlatest : start ≤ health.latest) :
    ∃ moments sink, w.Leads [] a.begin moments (Assignment.completed sink stop.following) ∧
      a.Dealt filters moments sink (s.between start stop) := by
  let m := w.moment [] (.archiveHealth start stop)
  have hbegin : a.Dealt filters [m] (.ofCapacity a.config.dedupCapacity .backfill)
      (s.below start start) :=
    (Assignment.Dealt.begin a filters .backfill s start).quiet [m] rfl rfl rfl
  obtain ⟨moments, sink, hl, hdealt⟩ := h.backfill_leads hw hs (UInt32.le_refl start) hle
    (UInt32.le_refl stop) hbegin
  rw [endBackfill_of_archive hrequest, ← hw.signals []] at hl
  exact ⟨moments ++ [m], sink, leads_archive hrequest hr hhealthy hlatest hl, hdealt⟩

end World
end LedgerFeed
