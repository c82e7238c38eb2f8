import LedgerFeed.Proofs.Live

/-! The batches of an archive run over a range that the archive holds. Every batch comes back whole,
so the batches cut the range into pieces of one size, of which the last may be smaller, and the run
waits between them. -/

namespace LedgerFeed

def pieces (size count : Nat) : Nat :=
  (count + size - 1) / size

/-- Where the pieces begin that `count` ledgers from `first` on come to, and how long they are. -/
def stretches (first size count : Nat) : List (Nat × Nat) :=
  (List.range (pieces size count)).map fun i => (first + i * size, min size (count - i * size))

section

variable {first size count : Nat}

theorem pieces_of_le (hpos : 0 < count) (hle : count ≤ size) : pieces size count = 1 :=
  Nat.div_eq_of_lt_le (by omega) (by omega)

theorem pieces_of_lt (hpos : 0 < size) (hlt : size < count) :
    pieces size count = pieces size (count - size) + 1 := by
  have hcount : count + size - 1 = count - size + size - 1 + size := by omega
  rw [pieces, hcount, Nat.add_div_right _ hpos]
  rfl

theorem stretches_ne_nil (hsize : 0 < size) (hpos : 0 < count) :
    stretches first size count ≠ [] := by
  have hsome : 0 < pieces size count := Nat.div_pos (by omega) hsize
  simpa [stretches] using Nat.ne_of_gt hsome

theorem stretches_of_le (hpos : 0 < count) (hle : count ≤ size) :
    stretches first size count = [(first, count)] := by
  simp [stretches, pieces_of_le hpos hle, hle]

theorem stretches_of_lt (hpos : 0 < size) (hlt : size < count) :
    stretches first size count =
      (first, size) :: stretches (first + size) size (count - size) := by
  have hnext (i : Nat) : (first + (i + 1) * size, min size (count - (i + 1) * size)) =
      (first + size + i * size, min size (count - size - i * size)) := by
    rw [Nat.succ_mul, Nat.add_comm (i * size), ← Nat.add_assoc, Nat.sub_sub]
  rw [stretches, pieces_of_lt hpos hlt, List.range_succ_eq_map, List.map_cons, List.map_map]
  simp only [Function.comp_def, hnext, Nat.zero_mul, Nat.add_zero, Nat.sub_zero,
    Nat.min_eq_left (Nat.le_of_lt hlt)]
  rfl

end

def LedgersRequest.stretch (r : LedgersRequest) : Nat × Nat :=
  (r.start.toNat, r.limit.toNat)

def spaced (milliseconds : UInt64) (calls : List Question) : List Question :=
  (paused milliseconds).intercalate (calls.map fun q => [q])

@[simp] theorem spaced_singleton (milliseconds : UInt64) (q : Question) :
    spaced milliseconds [q] = [q] := by
  simp [spaced]

theorem intercalate_cons (gap block : List Question) {blocks : List (List Question)}
    (h : blocks ≠ []) :
    gap.intercalate (block :: blocks) = block ++ gap ++ gap.intercalate blocks := by
  cases blocks with
  | nil => exact absurd rfl h
  | cons block' blocks => simp [List.intercalate]

theorem spaced_cons (milliseconds : UInt64) (q : Question) {calls : List Question}
    (h : calls ≠ []) :
    spaced milliseconds (q :: calls) = q :: paused milliseconds ++ spaced milliseconds calls := by
  rw [spaced, List.map_cons, intercalate_cons _ _ (by simpa using h)]
  rfl

theorem inSequence_eq_self {target expected : LedgerNumber} {ledgers : List RawLedger}
    (h : Consecutive expected.toNat ledgers)
    (hle : expected.toNat + ledgers.length ≤ target.toNat + 1) :
    inSequence target expected ledgers = ledgers := by
  induction ledgers generalizing expected with
  | nil => rfl
  | cons ledger ledgers ih =>
    rw [List.length_cons] at hle
    have heq : ledger.sequence = expected := UInt32.toNat_inj.mp h.head_eq
    have hwithin : expected ≤ target := UInt32.le_iff_toNat_le.mpr (by omega)
    by_cases hlast : expected = .last
    · -- nothing can follow the last ledger that can be numbered
      have hsize := target.toNat_lt_size
      have hmax : expected.toNat = UInt32.size - 1 := hlast ▸ rfl
      obtain rfl : ledgers = [] := List.eq_nil_of_length_eq_zero (by omega)
      rw [inSequence, heq, if_neg (UInt32.lt_irrefl _), if_neg (UInt32.not_lt.mpr hwithin),
        if_neg (not_not_intro rfl), if_pos hlast]
    · have hnext := LedgerNumber.toNat_add_one hlast
      rw [inSequence_cons_of_eq heq hwithin hlast, ih (hnext ▸ h.tail) (by omega)]

variable {a : Assignment} {w : World a} {start stop next target : LedgerNumber}
  {store : List RawLedger}

structure Assignment.Stocked (a : Assignment) (store : List RawLedger)
    (start stop : LedgerNumber) : Prop where
  sorted : store.Pairwise fun l l' => l.sequence < l'.sequence
  whole : ∀ ledger, start ≤ ledger → ledger ≤ stop → ∃ l ∈ store, l.sequence = ledger
  clean : ∀ l ∈ store, start ≤ l.sequence → l.sequence ≤ stop → a.decoder.Clean l

/-- Whenever the archive is asked, it holds all ledgers of a range, and gives the first ones at or
after the request. -/
structure World.Stocks (w : World a) (start stop : LedgerNumber) : Prop where
  gives : ∀ history request, ∃ page store, w.reply history (.ledgers request) = .ok page ∧
    a.Stocked store start stop ∧
    page.ledgers = (store.dropWhile fun l => l.sequence < request.start).take request.limit.toNat

namespace Assignment

theorem toNat_limit_batchRequest (hle : next ≤ target) : (a.batchRequest next target).limit.toNat =
    min a.config.pageSize.toNat (target.toNat + 1 - next.toNat) := by
  have hle' := UInt32.le_iff_toNat_le.mp hle
  have hadvance := LedgerNumber.toNat_advance (target - next) 1
  have hpage := a.config.pageSize.toNat_lt_size
  rw [UInt32.toNat_sub_of_le _ _ hle, UInt32.toNat_one] at hadvance
  rw [batchRequest, batchOf, LedgerNumber.toNat_min, hadvance]
  -- the count of all numbers is one more than a limit can be, but so is no page
  omega

theorem Stocked.batch (h : a.Stocked store start stop) (hstart : start ≤ next) (hle : next ≤ target)
    (hstop : target ≤ stop) {ledgers : List RawLedger}
    (hpage : ledgers = (store.dropWhile fun l => l.sequence < next).take
      (a.batchRequest next target).limit.toNat) :
    ledgers.length = (a.batchRequest next target).limit.toNat ∧
      Consecutive next.toNat ledgers ∧ ∀ l ∈ ledgers, a.decoder.Clean l := by
  obtain ⟨hlen, hconsecutive⟩ := @length_of_store a store next target hle h.sorted
    fun n hn hn' => h.whole n (UInt32.le_trans hstart hn) (UInt32.le_trans hn' hstop)
  rw [← hpage] at hlen hconsecutive
  refine ⟨hlen, hconsecutive, fun l hl => ?_⟩
  have hmax := limit_batchRequest_le (a := a) hle
  have hrest : l ∈ store.dropWhile fun l => l.sequence < next := by
    rw [hpage] at hl
    exact List.mem_of_mem_take hl
  have hbelow : l.sequence ≤ target := by
    rw [← inSequence_eq_self hconsecutive (hlen ▸ hmax)] at hl
    exact le_of_mem_inSequence hl
  exact h.clean l ((List.dropWhile_sublist _).subset hrest)
    (UInt32.le_trans hstart (le_of_mem_dropWhile h.sorted hrest)) (UInt32.le_trans hbelow hstop)

end Assignment

namespace World

theorem Stocks.batch_leads (h : w.Stocks start stop) (hw : w.Unhindered) (hstart : start ≤ next)
    (hle : next ≤ target) (hstop : target ≤ stop) (before : List (Moment a)) {signals : Signals}
    (hs : signals.stop = false) (sink : Sink) :
    ∃ moments signals' sink' latest filters, signals'.stop = false ∧
      w.Leads before (a.backfill signals sink next target) moments
        (a.endTaken signals' sink' ⟨next, target, next, latest, filters⟩
          (a.batchRequest next target).limit.toNat false) ∧
      errands moments = [.ledgers (a.batchRequest next target)] := by
  let m := w.moment before (.ledgers next target)
  obtain ⟨page, store, hr, hstore, hpage⟩ := h.gives before (a.batchRequest next target)
  obtain ⟨hlen, hconsecutive, hclean⟩ := hstore.batch hstart hle hstop hpage
  have hmax := Assignment.limit_batchRequest_le (a := a) hle
  have hwhole : inSequence target next page.ledgers = page.ledgers :=
    inSequence_eq_self hconsecutive (hlen ▸ hmax)
  rw [Assignment.backfill, if_neg (UInt32.not_lt.mpr hle), if_neg (by simp [hs])]
  rcases Assignment.offerBatch_leads (P := fun signals => signals.stop = false) id hw.runs
      page.ledgers (m :: before) (hw.runs before) (sink.measure (.page .backfill))
      ⟨next, target, next, page.latest, (w.signals before).filters⟩ with
    ⟨moments, signals', sink', events, hs', hl, -, ha⟩ | ⟨moments, sink', error, events, hl, hf, -⟩
  · rw [hwhole, hlen, skipsLedger_of_consecutive hconsecutive] at hl
    refine ⟨moments ++ [m], signals', sink', _, _, hs', leads_ledgers hr hl, ?_⟩
    rw [errands_append, errands_of_handle ha, List.append_nil]
    rfl
  · dsimp only at hf
    rw [hwhole] at hf
    exact absurd hf (hw.not_faltersIn hl hclean)

theorem Stocks.last_batch_leads (h : w.Stocks start stop) (hw : w.Unhindered)
    (hstart : start ≤ next) (hle : next ≤ target) (hstop : target ≤ stop)
    (hfits : target.toNat + 1 - next.toNat ≤ a.config.pageSize.toNat) (before : List (Moment a))
    {signals : Signals} (hs : signals.stop = false) (sink : Sink) :
    ∃ moments sink',
      w.Leads before (a.backfill signals sink next target) moments (a.endBackfill sink' target) ∧
      errands moments = [.ledgers (a.batchRequest next target)] := by
  have hle' := UInt32.le_iff_toNat_le.mp hle
  obtain ⟨moments, signals', s, latest, filters, -, hl, hcalls⟩ :=
    h.batch_leads hw hstart hle hstop before hs sink
  have hdone : next.toNat + (a.batchRequest next target).limit.toNat = target.toNat + 1 := by
    rw [Assignment.toNat_limit_batchRequest hle]
    omega
  obtain ⟨measured, hend⟩ := a.endTaken_done signals' s latest filters hle' hdone
  rw [hend] at hl
  exact ⟨moments, _, hl, hcalls⟩

theorem Stocks.full_batch_leads (h : w.Stocks start stop) (hw : w.Unhindered)
    (hsize : 0 < a.config.pageSize.toNat) (hstart : start ≤ next) (hle : next ≤ target)
    (hstop : target ≤ stop) (hmore : next.toNat + a.config.pageSize.toNat ≤ target.toNat)
    (before : List (Moment a)) {signals : Signals} (hs : signals.stop = false) (sink : Sink) :
    ∃ moments signals' sink', signals'.stop = false ∧
      w.Leads before (a.backfill signals sink next target) moments
        (a.backfill signals' sink' (next + UInt32.ofNat a.config.pageSize.toNat) target) ∧
      errands moments =
        .ledgers (a.batchRequest next target) :: paused a.config.archivalWait := by
  have hlimit : (a.batchRequest next target).limit.toNat = a.config.pageSize.toNat := by
    rw [Assignment.toNat_limit_batchRequest hle]
    omega
  obtain ⟨moments, signals', s, latest, filters, hs', hl, hcalls⟩ :=
    h.batch_leads hw hstart hle hstop before hs sink
  obtain ⟨measured, hend⟩ := a.endTaken_more signals' s latest filters hsize hmore
  obtain ⟨pause, signals'', hs'', hl', hpause⟩ := wait_leads_paused
    (P := fun signals => signals.stop = false) id hw.runs hs' (moments ++ before)
    { s with measured } a.config.archivalWait
    (.betweenBatches (next + UInt32.ofNat a.config.pageSize.toNat) target)
  rw [hlimit, hend] at hl
  refine ⟨pause ++ moments, signals'', _, hs'', hl.trans hl', ?_⟩
  rw [errands_append, hcalls, (idle_of_paused hpause).errands, hpause]
  rfl

theorem Stocks.backfill_leads (h : w.Stocks start stop) (hw : w.Unhindered)
    (hsize : 0 < a.config.pageSize.toNat) (hstart : start ≤ next) (hle : next ≤ target)
    (hstop : target ≤ stop) (before : List (Moment a)) {signals : Signals}
    (hs : signals.stop = false) (sink : Sink) :
    ∃ moments sink', ∃ requests : List LedgersRequest,
      w.Leads before (a.backfill signals sink next target) moments (a.endBackfill sink' target) ∧
      requests.map LedgersRequest.stretch =
        stretches next.toNat a.config.pageSize.toNat (target.toNat + 1 - next.toNat) ∧
      errands moments = spaced a.config.archivalWait (requests.map .ledgers) := by
  -- every batch but the last leaves fewer ledgers to ask for
  induction hn : target.toNat - next.toNat using Nat.strongRecOn
    generalizing before signals sink next with
  | ind n ih =>
  have hstart' := UInt32.le_iff_toNat_le.mp hstart
  have hle' := UInt32.le_iff_toNat_le.mp hle
  have hlimit := Assignment.toNat_limit_batchRequest (a := a) hle
  have hstretch : (a.batchRequest next target).stretch =
      (next.toNat, min a.config.pageSize.toNat (target.toNat + 1 - next.toNat)) :=
    congrArg (Prod.mk next.toNat) hlimit
  rcases Nat.lt_or_ge target.toNat (next.toNat + a.config.pageSize.toNat) with hfits | hmore
  · obtain ⟨moments, sink', hl, hcalls⟩ :=
      h.last_batch_leads hw hstart hle hstop (by omega) before hs sink
    refine ⟨moments, sink', [a.batchRequest next target], hl, ?_, by simpa using hcalls⟩
    rw [stretches_of_le (by omega) (by omega), List.map_singleton, hstretch,
      Nat.min_eq_right (by omega)]
  · have hnext := LedgerNumber.toNat_add_ofNat (Nat.lt_of_le_of_lt hmore target.toNat_lt_size)
    obtain ⟨moments, signals', s, hs', hl, hcalls⟩ :=
      h.full_batch_leads hw hsize hstart hle hstop hmore before hs sink
    obtain ⟨later, sink', requests, hl', hcut, hlater⟩ := ih _ (by omega)
      (UInt32.le_iff_toNat_le.mpr (by omega)) (UInt32.le_iff_toNat_le.mpr (hnext ▸ hmore))
      (moments ++ before) hs' s rfl
    have hne : requests.map Question.ledgers ≠ [] := by
      intro hnil
      rw [List.map_eq_nil_iff.mp hnil, List.map_nil] at hcut
      exact stretches_ne_nil hsize (by omega) hcut.symm
    refine ⟨later ++ moments, sink', a.batchRequest next target :: requests, hl.trans hl', ?_, ?_⟩
    · rw [stretches_of_lt hsize (by omega), List.map_cons, hcut, hstretch, hnext,
        Nat.min_eq_left (by omega), Nat.sub_sub]
    · rw [errands_append, hcalls, hlater, List.map_cons, spaced_cons _ _ hne]

end World

/-- An archive run over a range in store asks the archive once for its health and then for the range
in batches of one size, of which the last is as long as what is left; it waits between any two
batches, asks the live node for nothing, and ends behind the range. -/
theorem archive_partitioned (hrequest : a.request = .archive start stop) (hle : start ≤ stop)
    (hsize : 0 < a.config.pageSize) (hw : w.Unhindered) {health : Health}
    (hr : w.reply [] (.health .archive) = .ok health) (hhealthy : health.healthy = true)
    (hlatest : start ≤ health.latest) (hstocks : w.Stocks start stop) :
    ∃ history delivered, w.Ends history ⟨.completed, delivered, stop.following⟩ ∧
      ∃ requests : List LedgersRequest,
        requests.map LedgersRequest.stretch =
          stretches start.toNat a.config.pageSize.toNat (stop.toNat + 1 - start.toNat) ∧
        errands history =
          .health .archive :: spaced a.config.archivalWait (requests.map .ledgers) := by
  let m := w.moment [] (.archiveHealth start stop)
  obtain ⟨moments, sink, requests, hl, hcut, hcalls⟩ := hstocks.backfill_leads hw
    (UInt32.lt_iff_toNat_lt.mp hsize) (UInt32.le_refl start) hle (UInt32.le_refl stop) [m]
    (hw.runs []) (.ofCapacity a.config.dedupCapacity .backfill)
  rw [World.endBackfill_of_archive hrequest] at hl
  refine ⟨moments ++ [m], sink.delivered,
    World.ends_of_leads (World.leads_archive hrequest hr hhealthy hlatest hl), requests, hcut, ?_⟩
  rw [errands_append, hcalls]
  rfl

open Rehearsal

def brimNode : Node :=
  { risingNode with
    windows := [⟨3, .last, true⟩]
    ledgers := [⟨.last - 2, "", "", "", [sampleEvent (.last - 2) "a"]⟩, ⟨.last - 1, "", "", "", []⟩,
      ⟨.last, "", "", "", [sampleEvent .last "b"]⟩] }

def brimRun : Assignment :=
  { risingRun with
    request := .archive (.last - 2) .last
    archive := some "archive" }

theorem brimNode_stocked : brimRun.Stocked brimNode.ledgers (.last - 2) .last where
  sorted := by decide
  whole ledger hge hle := by
    have hcases : ledger = .last - 2 ∨ ledger = .last - 1 ∨ ledger = .last := by
      simp only [← UInt32.toNat_inj, UInt32.le_iff_toNat_le] at hge hle ⊢
      change 4294967293 ≤ _ at hge
      change _ = 4294967293 ∨ _ = 4294967294 ∨ _ = 4294967295
      have := ledger.toNat_lt
      omega
    rcases hcases with rfl | rfl | rfl <;> decide
  clean := by
    simp only [brimNode, List.forall_mem_cons]
    exact ⟨fun _ _ => ⟨_, rfl, by simpa using ⟨_, rfl⟩⟩, fun _ _ => ⟨_, rfl, by simp⟩,
      fun _ _ => ⟨_, rfl, by simpa using ⟨_, rfl⟩⟩, by simp⟩

theorem brimRun_partitioned :
    ∃ history delivered,
      (Node.world brimRun brimNode brimNode []).Ends history ⟨.completed, delivered, .last⟩ ∧
      ∃ requests : List LedgersRequest,
        requests.map LedgersRequest.stretch = [(4294967293, 2), (4294967295, 1)] ∧
        errands history = .health .archive :: spaced 500 (requests.map .ledgers) := by
  have hstocks : (Node.world brimRun brimNode brimNode []).Stocks (.last - 2) .last :=
    ⟨fun history request => ⟨_, _, rfl, brimNode_stocked, rfl⟩⟩
  exact archive_partitioned rfl (by decide) (by decide) Node.world_undisturbed.unhindered rfl rfl
    (by decide) hstocks

end LedgerFeed
