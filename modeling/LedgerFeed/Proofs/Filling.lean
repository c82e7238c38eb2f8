import LedgerFeed.Proofs.Batch
import LedgerFeed.Proofs.Setting

/-! In a setting, a backfill feeds the ledgers of its range up to one that the store lacks, whatever
the batches are that they come in. -/

namespace LedgerFeed
namespace Setting

variable {a : Assignment} {s : Setting} {t : Tally} {before : List (Moment a)} {sink : Sink}

def fillTo (s : Setting) (decoder : Decoder) (next target : LedgerNumber) (t : Tally) :
    Except Breakdown Tally :=
  s.fill decoder (target.toNat + 1 - next.toNat) next t

section

variable {decoder : Decoder} {next target : LedgerNumber} {stored : RawLedger}

theorem fillTo_of_lt (h : target < next) : s.fillTo decoder next target t = .ok t := by
  have hlt := UInt32.lt_iff_toNat_lt.mp h
  rw [fillTo, Nat.sub_eq_zero_of_le hlt]
  rfl

theorem fillTo_succ (h : next ≤ target) : s.fillTo decoder next target t =
    match s.stored.find? fun ledger => next ≤ ledger.sequence with
    | none => .error ⟨t, .archiveGap next (s.tip .archive t.queries)⟩
    | some ledger =>
      if ledger.sequence ≠ next then .error ⟨t, .archiveGap next (s.tip .archive t.queries)⟩
      else
        match decoder.ledgerEvents ledger with
        | .error cause => .error ⟨t, .decode ledger.sequence cause⟩
        | .ok raws => s.feed decoder t raws >>=
            s.fill decoder (target.toNat - next.toNat) (next + 1) := by
  have hle := UInt32.le_iff_toNat_le.mp h
  rw [fillTo, Nat.sub_add_comm hle]
  rfl

theorem fillTo_gap (h : next ≤ target) (hgap : ∀ ledger,
      (s.stored.find? fun ledger => next ≤ ledger.sequence) = some ledger →
        ledger.sequence ≠ next) :
    s.fillTo decoder next target t =
      .error ⟨t, .archiveGap next (s.tip .archive t.queries)⟩ := by
  rw [fillTo_succ h]
  split
  · rfl
  · rename_i ledger hfind
    exact if_pos (hgap ledger hfind)

theorem fillTo_unreadable (h : next ≤ target)
    (hfind : (s.stored.find? fun ledger => next ≤ ledger.sequence) = some stored)
    (heq : stored.sequence = next) {cause : DecodeError}
    (hread : decoder.ledgerEvents stored = .error cause) :
    s.fillTo decoder next target t = .error ⟨t, .decode stored.sequence cause⟩ := by
  simp [fillTo_succ h, hfind, heq, hread]

theorem fillTo_read (h : next ≤ target)
    (hfind : (s.stored.find? fun ledger => next ≤ ledger.sequence) = some stored)
    (heq : stored.sequence = next) {raws : List RawEvent}
    (hread : decoder.ledgerEvents stored = .ok raws) :
    s.fillTo decoder next target t = s.feed decoder t raws >>=
      s.fill decoder (target.toNat - next.toNat) (next + 1) := by
  simp [fillTo_succ h, hfind, heq, hread]

theorem fill_eq_fillTo (h : next ≠ .last) :
    s.fill decoder (target.toNat - next.toNat) (next + 1) =
      s.fillTo decoder (next + 1) target := by
  have hrest : target.toNat - next.toNat = target.toNat + 1 - (next + 1).toNat := by
    rw [LedgerNumber.toNat_add_one h]
    omega
  rw [hrest]
  rfl

end

/-- What is left of a batch shows the store from the expected ledger on, even where nothing was
taken of it yet. -/
structure Shows (s : Setting) (b : Batch) (ledgers : List RawLedger) : Prop where
  le : b.next ≤ b.expected
  initial : (ledgers.filter fun ledger => b.expected ≤ ledger.sequence) <+:
    s.stored.filter fun ledger => b.expected ≤ ledger.sequence
  first : b.expected = b.next →
    (ledgers.filter fun ledger => b.expected ≤ ledger.sequence) = [] →
      (s.stored.filter fun ledger => b.expected ≤ ledger.sequence) = []

section

variable {b : Batch} {stored : RawLedger} {ledgers : List RawLedger}

theorem shows_batch {request : LedgersRequest} (hlimit : 0 < request.limit.toNat)
    (hb : b.expected = b.next) (hnext : request.start = b.next) (latest : LedgerNumber) :
    s.Shows b (s.batch latest request).ledgers := by
  have hfilter : ((s.batch latest request).ledgers.filter fun ledger =>
      b.expected ≤ ledger.sequence) = (s.batch latest request).ledgers := by
    rw [List.filter_eq_self]
    intro ledger hledger
    rw [hb, ← hnext]
    exact (List.mem_filter.mp (List.mem_of_mem_take hledger)).2
  refine ⟨UInt32.le_of_eq hb.symm, ?_, fun _ hnil => ?_⟩
  · rw [hfilter, hb, ← hnext]
    exact List.take_prefix ..
  · rw [hfilter] at hnil
    rw [hb, ← hnext]
    exact (List.take_eq_nil_iff.mp hnil).resolve_left (Nat.ne_of_gt hlimit)

namespace Shows

theorem skip (h : s.Shows b (stored :: ledgers)) (hlt : stored.sequence < b.expected) :
    s.Shows b ledgers := by
  have hfilter : ((stored :: ledgers).filter fun ledger => b.expected ≤ ledger.sequence) =
      ledgers.filter fun ledger => b.expected ≤ ledger.sequence :=
    List.filter_cons_of_neg (by simpa using hlt)
  exact ⟨h.le, hfilter ▸ h.initial, hfilter ▸ h.first⟩

theorem find?_eq (h : s.Shows b (stored :: ledgers)) (hge : b.expected ≤ stored.sequence) :
    (s.stored.find? fun ledger => b.expected ≤ ledger.sequence) = some stored := by
  have hinitial := h.initial
  rw [List.filter_cons_of_pos (by simpa using hge)] at hinitial
  obtain ⟨rest, hrest⟩ := hinitial
  rw [← List.head?_filter, ← hrest]
  rfl

theorem find?_nil (h : s.Shows b []) (hb : b.expected = b.next) :
    (s.stored.find? fun ledger => b.expected ≤ ledger.sequence) = none := by
  rw [← List.head?_filter, h.first hb rfl]
  rfl

theorem take (h : s.Shows b (stored :: ledgers)) (heq : stored.sequence = b.expected)
    (hne : b.expected ≠ .last) :
    s.Shows { b with expected := b.expected + 1 } ledgers := by
  have hnext := LedgerNumber.toNat_add_one hne
  have hle := UInt32.le_iff_toNat_le.mp h.le
  have hnarrow (ledgers : List RawLedger) :
      ((ledgers.filter fun ledger => b.expected ≤ ledger.sequence).filter fun ledger =>
        b.expected + 1 ≤ ledger.sequence) =
          ledgers.filter fun ledger => b.expected + 1 ≤ ledger.sequence := by
    rw [List.filter_filter]
    congr 1
    funext ledger
    simp only [UInt32.le_iff_toNat_le, hnext]
    grind
  refine ⟨?_, ?_, fun hfirst => ?_⟩
  · rw [UInt32.le_iff_toNat_le, hnext]
    exact Nat.le_succ_of_le hle
  · have hinitial := h.initial.filter fun ledger => decide (b.expected + 1 ≤ ledger.sequence)
    rw [hnarrow, hnarrow, List.filter_cons_of_neg] at hinitial
    · exact hinitial
    · simp [UInt32.le_iff_toNat_le, hnext, heq]
  · have := congrArg UInt32.toNat hfirst
    simp only at this
    omega

end Shows

def Backfills (s : Setting) (a : Assignment) (next target : LedgerNumber) : Prop :=
  ∀ (t : Tally) (before : List (Moment a)) (sink : Sink), t.Fits before sink →
    s.Brings before (a.backfill s.signals sink next target) (s.fillTo a.decoder next target t)
      fun sink => a.endBackfill sink target

theorem endBatch_brings (hlater : ∀ next, b.next < next → s.Backfills a next b.target)
    (hle : b.next ≤ b.expected)
    (hgap : b.expected = b.next → s.fillTo a.decoder b.expected b.target t =
      .error ⟨t, .archiveGap b.next b.archiveLatest⟩) (h : t.Fits before sink) :
    s.Brings before (a.endBatch s.signals sink b) (s.fillTo a.decoder b.expected b.target t)
      fun sink => a.endBackfill sink b.target := by
  rw [Assignment.endBatch]
  split
  · rename_i heq
    rw [hgap heq]
    exact .failed h
  rename_i hne
  have h' : t.Fits before ((sink.measure (.backfilled (b.expected - b.next))).measure
      (.cursor .backfill b.expected)) := h.withSink rfl rfl
  split
  · rename_i hlt
    rw [fillTo_of_lt hlt]
    exact .here h' rfl
  · refine (wait_brings h' ..).andThen fun moments sink hfits => ?_
    exact hlater b.expected (UInt32.lt_of_le_of_ne hle (Ne.symm hne)) t _ sink hfits

theorem offerBatch_brings (hlater : ∀ next, b.next < next → s.Backfills a next b.target)
    (hle : b.next ≤ b.target) (hfilters : b.filters = s.filters)
    (htip : b.archiveLatest = s.tip .archive t.queries) (hshows : s.Shows b ledgers)
    (h : t.Fits before sink) :
    s.Brings before (a.offerBatch s.signals sink b ledgers)
      (s.fillTo a.decoder b.expected b.target t) fun sink => a.endBackfill sink b.target := by
  induction ledgers generalizing b before sink t with
  | nil =>
    refine endBatch_brings hlater hshows.le (fun hb => ?_) h
    rw [hb, fillTo_gap hle, htip]
    intro ledger hledger
    rw [← hb, hshows.find?_nil hb] at hledger
    cases hledger
  | cons stored ledgers ih =>
    rw [Assignment.offerBatch_cons]
    split
    · rename_i hlt
      exact ih hlater hle hfilters htip (hshows.skip hlt) h
    rename_i hge
    have hfind := hshows.find?_eq (UInt32.not_lt.mp hge)
    split
    · rename_i hbeyond
      refine endBatch_brings hlater hshows.le (fun hb => ?_) h
      rw [hb, fillTo_gap hle, htip]
      intro ledger hledger heq
      rw [← hb, hfind] at hledger
      obtain rfl := Option.some.inj hledger
      exact UInt32.not_lt.mpr hle (heq ▸ hbeyond)
    rename_i hin
    have hwanted : b.expected ≤ b.target :=
      UInt32.le_trans (UInt32.not_lt.mp hge) (UInt32.not_lt.mp hin)
    split
    · rename_i hne
      rw [fillTo_gap hwanted, htip]
      · exact .failed h
      · intro ledger hledger
        rw [hfind] at hledger
        obtain rfl := Option.some.inj hledger
        exact hne
    rename_i heq
    have heq : stored.sequence = b.expected := by simpa using heq
    cases hread : a.decoder.ledgerEvents stored with
    | error cause =>
      rw [fillTo_unreadable hwanted hfind heq hread]
      exact .failed h
    | ok raws =>
      rw [fillTo_read hwanted hfind heq hread]
      have hcontinues : a.Continues s.filters b.expected (.batch b · ledgers) fun signals sink =>
          if b.expected = .last then a.endAtLast sink b
          else a.offerBatch signals sink { b with expected := b.expected + 1 } ledgers :=
        hfilters ▸ continues_batch b ledgers
      have hoffered := offerThen_brings hcontinues raws h
      rw [← hfilters] at hoffered
      refine hoffered.bind fun t' moments sink hfed hfits => ?_
      split
      · rename_i hlast
        have htarget : b.target = .last := LedgerNumber.eq_last_of_le (hlast ▸ hwanted)
        have hfits' : t'.Fits (moments ++ before)
            (sink.measure (.backfilled (b.expected - b.next + 1))) := hfits.withSink rfl rfl
        have hfill : s.fill a.decoder (b.target.toNat - b.expected.toNat) (b.expected + 1) t' =
            .ok t' := by
          rw [htarget, hlast]
          rfl
        rw [hfill]
        exact .here hfits' rfl
      · rename_i hne
        rw [fill_eq_fillTo hne]
        exact ih (b := { b with expected := b.expected + 1 }) hlater hle hfilters
          (htip.trans (congrArg _ (queries_of_feed hfed).symm)) (hshows.take heq hne) hfits

theorem leads_batch (h : t.Fits before sink) (next target : LedgerNumber) :
    (s.world a).Leads before (.waiting sink (.ledgers next target))
      [(s.world a).moment before (.ledgers next target)]
      (a.offerBatch s.signals (sink.measure (.page .backfill))
        ⟨next, target, next, s.tip .archive t.queries, s.filters⟩
        (s.batch (s.tip .archive t.queries) (a.batchRequest next target)).ledgers) := by
  have hreply : (s.world a).reply before (.ledgers (a.batchRequest next target)) =
      .ok (s.batch (s.tip .archive t.queries) (a.batchRequest next target)) := by
    rw [← h.queries]
    rfl
  exact @World.leads_ledgers a _ before [] _ _ _ _ _ hreply (.refl ..)

theorem backfill_brings (hsize : 0 < a.config.pageSize) (next target : LedgerNumber) :
    s.Backfills a next target := by
  -- a batch that makes progress leaves fewer ledgers to the backfill that goes on after it
  induction hlen : UInt32.size - next.toNat using Nat.strongRecOn generalizing next with
  | ind n ih =>
  intro t before sink h
  rw [Assignment.backfill]
  split
  · rename_i hlt
    rw [fillTo_of_lt hlt]
    exact .here h rfl
  rename_i hge
  have hle := UInt32.not_lt.mp hge
  have hlater (later : LedgerNumber) (hlt : next < later) : s.Backfills a later target := by
    have := UInt32.lt_iff_toNat_lt.mp hlt
    have := later.toNat_lt_size
    exact ih _ (by omega) later rfl
  have hfits : t.Fits ([(s.world a).moment before (.ledgers next target)] ++ before)
      (sink.measure (.page .backfill)) := h.quiet rfl rfl rfl rfl
  have hlimit := Assignment.limit_batchRequest_pos hsize next target
  refine .of_leads (leads_batch h next target) ?_
  exact offerBatch_brings (b := ⟨next, target, next, _, _⟩) hlater hle rfl rfl
    (shows_batch hlimit rfl rfl _) hfits

end

end Setting
end LedgerFeed
