import LedgerFeed.Proofs.Batch

/-! A whole backfill, whatever the archive answers. The ledgers taken are numbered without a break
from the first one on; the backfill comes to its target, or fails at the ledger behind those
taken. -/

namespace LedgerFeed.Assignment

variable {a : Assignment} {w : World a} {moments later : List (Moment a)} {sink s sink' : Sink}
  {start next target : LedgerNumber} {taken others : List RawLedger} {part : List RawEvent}

structure Backfilled (a : Assignment) (sink : Sink) (start target : LedgerNumber)
    (moments : List (Moment a)) (taken : List RawLedger) (part : List RawEvent) (sink' : Sink) :
    Prop where
  consecutive : Consecutive start.toNat taken
  within : start.toNat + taken.length ≤ target.toNat + 1
  given : taken.Sublist ((batches moments).flatMap LedgersPage.ledgers)
  readable : ∀ ledger ∈ taken, ∃ raws, a.decoder.ledgerEvents ledger = .ok raws
  offered : sink'.offered = sink.offered ++ taken.flatMap a.decoder.payload ++ part
  asked : ∀ request ∈ ledgersAsked moments,
    ∃ next, start ≤ next ∧ next ≤ target ∧ request = a.batchRequest next target
  rising : (ledgersAsked moments).Pairwise fun r r' => r.start < r'.start

inductive BackfillFault (a : Assignment) (moments : List (Moment a)) (first : Nat) :
    List RawEvent → IngestError → Prop
  | call {next target : LedgerNumber} {signals : Signals} {failure : NodeFailure}
      (h : ⟨.ledgers next target, signals, .error failure⟩ ∈ moments) (hn : next.toNat = first) :
      BackfillFault a moments first [] (.node a.archiveEndpoint failure)
  | ledger {page : LedgersPage} {ledger : RawLedger} {part : List RawEvent} {error : IngestError}
      (hp : page ∈ batches moments) (hl : ledger ∈ page.ledgers)
      (hn : ledger.sequence.toNat = first) (hf : a.LedgerFault moments ledger part error) :
      BackfillFault a moments first part error
  | gap {page : LedgersPage} {missing : LedgerNumber}
      (hp : (batches moments).getLast? = some page) (hn : missing.toNat = first) :
      BackfillFault a moments first [] (.archiveGap missing page.latest)

/-- How a backfill ends, once it took some ledgers. Each batch but a failing one takes a ledger. -/
inductive BackfillEnd (a : Assignment) (moments : List (Moment a)) (start target : LedgerNumber)
    (taken : List RawLedger) (sink' : Sink) : List RawEvent → Progress → Prop
  | completed (h : start.toNat + taken.length = target.toNat + 1)
      (hcalls : (ledgersAsked moments).length ≤ taken.length) :
      BackfillEnd a moments start target taken sink' [] (a.endBackfill sink' target)
  | failed {part : List RawEvent} {error : IngestError}
      (h : start.toNat + taken.length ≤ target.toNat)
      (hcalls : (ledgersAsked moments).length ≤ taken.length + 1)
      (hf : a.BackfillFault moments (start.toNat + taken.length) part error) :
      BackfillEnd a moments start target taken sink' part (failed sink' error)

theorem BatchOf.backfilled {page : LedgersPage} {events : List ContractEvent}
    (h : BatchOf (a.batchRequest next target) page events moments) (hle : next ≤ target)
    (ht : taken <+: inSequence target next page.ledgers)
    (hr : ∀ ledger ∈ taken, ∃ raws, a.decoder.ledgerEvents ledger = .ok raws)
    (ho : sink'.offered = sink.offered ++ taken.flatMap a.decoder.payload ++ part) :
    a.Backfilled sink next target moments taken part sink' := by
  have hle' := UInt32.le_iff_toNat_le.mp hle
  obtain ⟨rest, hrest⟩ := ht
  constructor
  · exact (hrest ▸ consecutive_inSequence target next page.ledgers :
      Consecutive next.toNat (taken ++ rest)).of_append.1
  · have hlen := length_inSequence page.ledgers (Nat.le_succ_of_le hle')
    rw [← hrest, List.length_append] at hlen
    omega
  · rw [h.batches, List.flatMap_singleton]
    exact (List.prefix_append taken rest).sublist.trans
      (hrest ▸ inSequence_sublist target next page.ledgers)
  · exact hr
  · exact ho
  · rw [h.ledgersAsked]
    intro request hrequest
    exact ⟨next, UInt32.le_refl next, hle, List.mem_singleton.mp hrequest⟩
  · rw [h.ledgersAsked]
    exact List.pairwise_singleton ..

theorem Backfilled.append (h : a.Backfilled sink start target moments taken [] s)
    (hnext : next.toNat = start.toNat + taken.length)
    (hbelow : ∀ request ∈ ledgersAsked moments, request.start < next)
    (h' : a.Backfilled s next target later others part sink') :
    a.Backfilled sink start target (later ++ moments) (taken ++ others) part sink' := by
  constructor
  · exact h.consecutive.append (hnext ▸ h'.consecutive)
  · have := h'.within
    rw [List.length_append]
    omega
  · rw [batches_append, List.flatMap_append]
    exact h.given.append h'.given
  · intro ledger hledger
    exact (List.mem_append.mp hledger).elim (h.readable ledger) (h'.readable ledger)
  · rw [h'.offered, h.offered]
    simp
  · rw [ledgersAsked_append]
    intro request hrequest
    rcases List.mem_append.mp hrequest with hrequest | hrequest
    · exact h.asked request hrequest
    · obtain ⟨first, hle, hle', rfl⟩ := h'.asked request hrequest
      have hstart : start ≤ next := UInt32.le_iff_toNat_le.mpr (by omega)
      exact ⟨first, UInt32.le_trans hstart hle, hle', rfl⟩
  · rw [ledgersAsked_append, List.pairwise_append]
    refine ⟨h.rising, h'.rising, fun r hr r' hr' => ?_⟩
    obtain ⟨first, hle, -, rfl⟩ := h'.asked r' hr'
    exact UInt32.lt_of_lt_of_le (hbelow r hr) hle

theorem BackfillFault.append {first : Nat} {error : IngestError}
    (h : a.BackfillFault later first part error) (moments : List (Moment a)) :
    a.BackfillFault (later ++ moments) first part error := by
  have hsub : later ⊆ later ++ moments := List.subset_append_left ..
  cases h with
  | call hm hn => exact .call (hsub hm) hn
  | ledger hp hl hn hf =>
    refine .ledger ?_ hl hn (hf.mono hsub)
    rw [batches_append]
    exact List.mem_append_right _ hp
  | gap hp hn =>
    refine .gap ?_ hn
    rw [batches_append, List.getLast?_append, hp]
    rfl

theorem BackfillEnd.append {p : Progress} (h : a.BackfillEnd later next target others sink' part p)
    (hnext : next.toNat = start.toNat + taken.length)
    (hcalls : (ledgersAsked moments).length ≤ taken.length) :
    a.BackfillEnd (later ++ moments) start target (taken ++ others) sink' part p := by
  have hlen : start.toNat + (taken ++ others).length = next.toNat + others.length := by
    rw [List.length_append]
    omega
  have hasked : (ledgersAsked (later ++ moments)).length =
      (ledgersAsked moments).length + (ledgersAsked later).length := by
    rw [ledgersAsked_append, List.length_append]
  cases h with
  | completed h hlater =>
    refine .completed (hlen ▸ h) ?_
    rw [hasked, List.length_append]
    omega
  | failed h hlater hf =>
    refine .failed (hlen ▸ h) ?_ (hlen ▸ hf.append moments)
    rw [hasked, List.length_append]
    omega

theorem backfill_leads_of_call (before : List (Moment a)) {signals : Signals}
    (hs : signals.stop = false) (sink : Sink) (hle : next ≤ target) {failure : NodeFailure}
    (hr : w.reply before (.ledgers (a.batchRequest next target)) = .error failure) :
    ∃ moments p, w.Leads before (a.backfill signals sink next target) moments p ∧
      a.Backfilled sink next target moments [] [] sink ∧
      a.BackfillEnd moments next target [] sink [] p := by
  have hle' := UInt32.le_iff_toNat_le.mp hle
  have hmoment : w.moment before (.ledgers next target) =
      ⟨.ledgers next target, w.signals before, .error failure⟩ :=
    congrArg (Moment.mk (a := a) (.ledgers next target) (w.signals before)) hr
  have hl := @World.leads_of_ledgers_error a w before sink _ _ _ hr
  rw [hmoment] at hl
  refine ⟨[⟨.ledgers next target, w.signals before, .error failure⟩], _, ?_, ?_,
    .failed hle' (Nat.le_refl 1) (.call (List.mem_singleton.mpr rfl) rfl)⟩
  · rw [backfill, if_neg (UInt32.not_lt.mpr hle), if_neg (by simp [hs])]
    exact hl
  · constructor
    · rfl
    · exact Nat.le_succ_of_le hle'
    · exact List.nil_sublist _
    · simp
    · simp
    · intro request hrequest
      exact ⟨next, UInt32.le_refl next, hle, List.mem_singleton.mp hrequest⟩
    · exact List.pairwise_singleton ..

theorem BatchOf.mem_batches {request : LedgersRequest} {page : LedgersPage}
    {events : List ContractEvent} (h : BatchOf request page events moments) :
    page ∈ LedgerFeed.batches moments := by
  rw [h.batches]
  exact List.mem_singleton.mpr rfl

theorem BatchOf.length_ledgersAsked {request : LedgersRequest} {page : LedgersPage}
    {events : List ContractEvent} (h : BatchOf request page events moments) :
    (LedgerFeed.ledgersAsked moments).length = 1 := by
  rw [h.ledgersAsked]
  rfl

theorem BatchOf.backfilled_of_faltersIn {page : LedgersPage} {events : List ContractEvent}
    {error : IngestError} (h : BatchOf (a.batchRequest next target) page events moments)
    (hle : next ≤ target)
    (hf : a.FaltersIn moments (sink.measure (.page .backfill))
      (inSequence target next page.ledgers) sink' error) :
    ∃ taken part, a.Backfilled sink next target moments taken part sink' ∧
      a.BackfillEnd moments next target taken sink' part (failed sink' error) := by
  obtain ⟨done, ledger, rest, part, hseq, hdone, ho, hfault⟩ := hf
  have hle' := UInt32.le_iff_toNat_le.mp hle
  have hcons := hseq ▸ consecutive_inSequence target next page.ledgers
  have hlen := length_inSequence page.ledgers (Nat.le_succ_of_le hle')
  rw [hseq, List.length_append, List.length_cons] at hlen
  have hprefix : done <+: inSequence target next page.ledgers := by
    rw [hseq]
    exact List.prefix_append ..
  have hmem : ledger ∈ page.ledgers := by
    apply (inSequence_sublist target next page.ledgers).subset
    rw [hseq]
    exact List.mem_append_right _ (List.mem_cons_self ..)
  refine ⟨done, part, h.backfilled hle hprefix hdone (by simpa using ho), .failed ?_ ?_ ?_⟩
  · omega
  · rw [h.length_ledgersAsked]
    exact Nat.le_add_left ..
  · exact .ledger h.mem_batches hmem hcons.sequence_eq hfault

theorem backfill_leads (hw : ∀ history, (w.signals history).stop = false)
    (before : List (Moment a)) {signals : Signals} (hs : signals.stop = false) (sink : Sink)
    (hle : next ≤ target) :
    ∃ moments taken part sink' p, w.Leads before (a.backfill signals sink next target) moments p ∧
      a.Backfilled sink next target moments taken part sink' ∧
      a.BackfillEnd moments next target taken sink' part p := by
  -- every batch that goes on leaves fewer ledgers to take
  induction hn : target.toNat - next.toNat using Nat.strongRecOn
    generalizing before signals sink next with
  | ind n ih =>
  have hle' := UInt32.le_iff_toNat_le.mp hle
  cases hr : w.reply before (.ledgers (a.batchRequest next target)) with
  | error failure =>
    obtain ⟨moments, p, h⟩ := backfill_leads_of_call before hs sink hle hr
    exact ⟨moments, [], [], sink, p, h⟩
  | ok page =>
    rcases batch_leads (P := fun signals => signals.stop = false) id hw before hs sink hle hr with
      ⟨moments, events, sink', p, hl, hread, hend, hb⟩ |
      ⟨moments, events, sink', error, hl, hf, hb⟩
    · have hfilled {s : Sink} (hs : s.offered = sink'.offered) : a.Backfilled sink next target
          moments (inSequence target next page.ledgers) [] s :=
        hb.backfilled hle List.prefix_rfl hread.1 (by simp [hs, hread.2.offered])
      cases hend with
      | gap hgap hbelow =>
        have hmissing :=
          LedgerNumber.toNat_add_ofNat (Nat.lt_of_le_of_lt hbelow target.toNat_lt_size)
        refine ⟨moments, _, [], sink', _, hl, hfilled rfl, .failed hbelow ?_ ?_⟩
        · rw [hb.length_ledgersAsked]
          omega
        · exact .gap (by rw [hb.batches]; rfl) hmissing
      | done hdone measured =>
        refine ⟨moments, _, [], { sink' with measured }, _, hl, hfilled rfl,
          .completed hdone ?_⟩
        rw [hb.length_ledgersAsked]
        omega
      | more hpos hbelow measured hs' =>
        have hnext := LedgerNumber.toNat_add_ofNat (Nat.lt_of_le_of_lt hbelow target.toNat_lt_size)
        have hlt : target.toNat -
            (next + UInt32.ofNat (inSequence target next page.ledgers).length).toNat < n := by
          omega
        obtain ⟨later, others, part, s, p, hl', hfilled', hend⟩ := ih _ hlt (moments ++ before) hs'
          { sink' with measured } (UInt32.le_iff_toNat_le.mpr (hnext ▸ hbelow)) rfl
        refine ⟨later ++ moments, _ ++ others, part, s, p, hl.trans hl', ?_, hend.append hnext ?_⟩
        · refine (hfilled (s := { sink' with measured }) rfl).append hnext ?_ hfilled'
          rw [hb.ledgersAsked]
          intro request hrequest
          rw [List.mem_singleton.mp hrequest]
          exact UInt32.lt_iff_toNat_lt.mpr (by simp only [batchRequest, batchOf]; omega)
        · rw [hb.length_ledgersAsked]
          omega
    · obtain ⟨taken, part, hfilled, hend⟩ := hb.backfilled_of_faltersIn hle hf
      exact ⟨moments, taken, part, sink', _, hl, hfilled, hend⟩

theorem endBackfill_ne_failed (sink sink' : Sink) (target : LedgerNumber) (error : IngestError) :
    a.endBackfill sink target ≠ failed sink' error := by
  unfold endBackfill choose
  split
  · simp [Assignment.completed, Assignment.failed]
  · dsimp only
    split <;> simp [Assignment.completed, Assignment.failed]

/-- Whatever the archive answers, a backfill that is not stopped ends. It took consecutive ledgers
in full, asked for no more batches than there are ledgers, and either took all or failed: by a call,
at the ledger behind those taken, or because the archive did not give that one. -/
theorem backfill_in_sequence (hw : ∀ history, (w.signals history).stop = false)
    (before : List (Moment a)) {signals : Signals} (hs : signals.stop = false) (sink : Sink)
    (hle : start ≤ target) :
    ∃ moments taken part sink' p, w.Leads before (a.backfill signals sink start target) moments p ∧
      a.Backfilled sink start target moments taken part sink' ∧
      (ledgersAsked moments).length ≤ target.toNat - start.toNat + 1 ∧
      (p = a.endBackfill sink' target ↔ taken.length = target.toNat - start.toNat + 1) ∧
      (p = a.endBackfill sink' target ∧ part = [] ∨
        ∃ error, start.toNat + taken.length ≤ target.toNat ∧ p = failed sink' error ∧
          a.BackfillFault moments (start.toNat + taken.length) part error) := by
  have hle' := UInt32.le_iff_toNat_le.mp hle
  obtain ⟨moments, taken, part, sink', p, hl, hfilled, hend⟩ := backfill_leads hw before hs sink hle
  refine ⟨moments, taken, part, sink', p, hl, hfilled, ?_⟩
  cases hend with
  | completed h hcalls =>
    have hlen : taken.length = target.toNat - start.toNat + 1 := by omega
    exact ⟨hlen ▸ hcalls, iff_of_true rfl hlen, .inl ⟨rfl, rfl⟩⟩
  | @failed _ error h hcalls hf =>
    refine ⟨by omega, iff_of_false ?_ (by omega), .inr ⟨error, h, rfl, hf⟩⟩
    exact (endBackfill_ne_failed sink' sink' target error).symm

def straying : Assignment where
  request := .archive 5 6
  config := .default
  decoder := .standard
  live := "live"
  archive := some "archive"

def strayArchive : World straying where
  signals _ := ⟨false, []⟩
  reply _
    | .health _ => .ok ⟨true, 1, 6, 5⟩
    | .events _ => .ok ⟨[], 6, none⟩
    | .ledgers request =>
      .ok ⟨[⟨request.start - 1, "", "", "", []⟩, ⟨request.start, "", "", "", []⟩,
        ⟨request.start, "", "", "", []⟩, ⟨9, "", "", "", []⟩], 6, 1⟩
    | .handle _ => .accepted
    | .pause _ => ()

theorem strayArchive_in_sequence :
    (∀ history, (strayArchive.signals history).stop = false) ∧ (5 : LedgerNumber) ≤ 6 ∧
    ∃ moments taken part sink' p,
      strayArchive.Leads []
        (straying.backfill ⟨false, []⟩ (.ofCapacity 25 .backfill) 5 6) moments p ∧
      straying.Backfilled (.ofCapacity 25 .backfill) 5 6 moments taken part sink' ∧
      (ledgersAsked moments).length ≤ 2 := by
  obtain ⟨moments, taken, part, sink', p, hl, hfilled, hcalls, -⟩ :=
    @backfill_in_sequence straying strayArchive 5 6 (fun _ => rfl) [] ⟨false, []⟩ rfl
      (.ofCapacity 25 .backfill) (by decide)
  exact ⟨fun _ => rfl, by decide, moments, taken, part, sink', p, hl, hfilled, hcalls⟩

end LedgerFeed.Assignment
