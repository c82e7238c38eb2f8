import LedgerFeed.Proofs.Offering

/-! One batch of a backfill from an archive that may answer anything. Of a page the backfill takes
the ledgers that continue the sequence; then it goes on behind them, or it has come to its target,
or it fails at a ledger that the page does not give. -/

namespace LedgerFeed

/-- The ledgers of a page that a backfill takes: those in sequence from an expected one up to a
target. -/
def inSequence (target : LedgerNumber) : LedgerNumber → List RawLedger → List RawLedger
  | _, [] => []
  | expected, ledger :: ledgers =>
    if ledger.sequence < expected then inSequence target expected ledgers
    else if target < ledger.sequence then []
    else if ledger.sequence ≠ expected then []
    else if expected = .last then [ledger]
    else ledger :: inSequence target (expected + 1) ledgers

def skipsLedger (target : LedgerNumber) : LedgerNumber → List RawLedger → Bool
  | _, [] => false
  | expected, ledger :: ledgers =>
    if ledger.sequence < expected then skipsLedger target expected ledgers
    else if target < ledger.sequence then false
    else if ledger.sequence ≠ expected then true
    else if expected = .last then false
    else skipsLedger target (expected + 1) ledgers

variable {target expected : LedgerNumber}

section

variable {ledger : RawLedger} {ledgers : List RawLedger}

theorem inSequence_cons_of_lt (h : ledger.sequence < expected) :
    inSequence target expected (ledger :: ledgers) = inSequence target expected ledgers :=
  if_pos h

theorem skipsLedger_cons_of_lt (h : ledger.sequence < expected) :
    skipsLedger target expected (ledger :: ledgers) = skipsLedger target expected ledgers :=
  if_pos h

theorem inSequence_cons_of_eq (h : ledger.sequence = expected) (hle : expected ≤ target)
    (hlast : expected ≠ .last) : inSequence target expected (ledger :: ledgers) =
      ledger :: inSequence target (expected + 1) ledgers := by
  rw [inSequence, h, if_neg (UInt32.lt_irrefl _), if_neg (UInt32.not_lt.mpr hle),
    if_neg (not_not_intro rfl), if_neg hlast]

theorem skipsLedger_cons_of_eq (h : ledger.sequence = expected) (hle : expected ≤ target)
    (hlast : expected ≠ .last) : skipsLedger target expected (ledger :: ledgers) =
      skipsLedger target (expected + 1) ledgers := by
  rw [skipsLedger, h, if_neg (UInt32.lt_irrefl _), if_neg (UInt32.not_lt.mpr hle),
    if_neg (not_not_intro rfl), if_neg hlast]

theorem inSequence_cons_of_gt (h : expected < ledger.sequence) :
    inSequence target expected (ledger :: ledgers) = [] := by
  rw [inSequence, if_neg (UInt32.lt_asymm h), if_pos (Ne.symm (UInt32.ne_of_lt h)), ite_self]

theorem skipsLedger_cons_of_gt (h : expected < ledger.sequence) (hle : ledger.sequence ≤ target) :
    skipsLedger target expected (ledger :: ledgers) = true := by
  rw [skipsLedger, if_neg (UInt32.lt_asymm h), if_neg (UInt32.not_lt.mpr hle),
    if_pos (Ne.symm (UInt32.ne_of_lt h))]

end

theorem inSequence_sublist (target expected : LedgerNumber) (ledgers : List RawLedger) :
    (inSequence target expected ledgers).Sublist ledgers := by
  fun_induction inSequence target expected ledgers with
  | case1 => exact .slnil
  | case2 _ _ _ _ ih => exact ih.cons _
  | case3 | case4 => exact List.nil_sublist _
  | case5 => exact (List.nil_sublist _).cons_cons _
  | case6 _ _ _ _ _ _ _ ih => exact ih.cons_cons _

def Consecutive (first : Nat) (ledgers : List RawLedger) : Prop :=
  ledgers.map (·.sequence.toNat) = List.range' first ledgers.length

theorem Consecutive.append {first : Nat} {xs ys : List RawLedger} (hx : Consecutive first xs)
    (hy : Consecutive (first + xs.length) ys) : Consecutive first (xs ++ ys) := by
  rw [Consecutive, List.map_append, hx, hy, List.length_append, List.range'_append_1]

theorem Consecutive.of_append {first : Nat} {xs ys : List RawLedger}
    (h : Consecutive first (xs ++ ys)) :
    Consecutive first xs ∧ Consecutive (first + xs.length) ys := by
  rw [Consecutive, List.map_append, List.length_append, ← List.range'_append_1] at h
  exact List.append_inj h (by simp)

theorem Consecutive.sequence_eq {first : Nat} {xs ys : List RawLedger} {ledger : RawLedger}
    (h : Consecutive first (xs ++ ledger :: ys)) : ledger.sequence.toNat = first + xs.length := by
  have hy := h.of_append.2
  rw [Consecutive, List.map_cons, List.length_cons, List.range'_succ] at hy
  exact (List.cons.inj hy).1

theorem Consecutive.head_eq {first : Nat} {ledger : RawLedger} {ledgers : List RawLedger}
    (h : Consecutive first (ledger :: ledgers)) : ledger.sequence.toNat = first :=
  @Consecutive.sequence_eq first [] ledgers ledger h

theorem Consecutive.tail {first : Nat} {ledger : RawLedger} {ledgers : List RawLedger}
    (h : Consecutive first (ledger :: ledgers)) : Consecutive (first + 1) ledgers :=
  (@Consecutive.of_append first [ledger] ledgers h).2

theorem consecutive_inSequence (target expected : LedgerNumber) (ledgers : List RawLedger) :
    Consecutive expected.toNat (inSequence target expected ledgers) := by
  fun_induction inSequence target expected ledgers with
  | case1 | case3 | case4 => rfl
  | case2 _ _ _ _ ih => exact ih
  | case5 ledger _ _ _ h => simp_all [Consecutive]
  | case6 expected ledger _ _ _ h hlast ih =>
    rw [Decidable.not_not] at h
    rw [Consecutive, LedgerNumber.toNat_add_one hlast] at ih
    rw [Consecutive, List.map_cons, ih, List.length_cons, List.range'_succ, h]

theorem consecutive_take {ledgers : List RawLedger} (first count : Nat)
    (hs : ledgers.Pairwise fun l l' => l.sequence < l'.sequence)
    (hfirst : ∀ ledger ∈ ledgers, first ≤ ledger.sequence.toNat)
    (hall : ∀ n, first ≤ n → n < first + count → ∃ ledger ∈ ledgers, ledger.sequence.toNat = n) :
    Consecutive first (ledgers.take count) ∧ count ≤ ledgers.length := by
  induction count generalizing ledgers first with
  | zero => exact ⟨rfl, Nat.zero_le _⟩
  | succ count ih =>
    cases ledgers with
    | nil =>
      obtain ⟨ledger, hledger, -⟩ := hall first (Nat.le_refl _) (by omega)
      cases hledger
    | cons ledger ledgers =>
      obtain ⟨hbelow, hs⟩ := List.pairwise_cons.mp hs
      have hbelow' : ∀ l ∈ ledgers, ledger.sequence.toNat < l.sequence.toNat := fun l hl =>
        UInt32.lt_iff_toNat_lt.mp (hbelow l hl)
      have heq : ledger.sequence.toNat = first := by
        obtain ⟨l, hl, heq⟩ := hall first (Nat.le_refl _) (by omega)
        rcases List.mem_cons.mp hl with rfl | hl
        · exact heq
        · have := hbelow' l hl
          have := hfirst ledger (List.mem_cons_self ..)
          omega
      obtain ⟨hc, hlen⟩ := ih (first + 1) hs (fun l hl => heq ▸ hbelow' l hl) fun n hn hn' => by
        obtain ⟨l, hl, hl'⟩ := hall n (by omega) (by omega)
        rcases List.mem_cons.mp hl with rfl | hl
        · omega
        · exact ⟨l, hl, hl'⟩
      refine ⟨?_, Nat.succ_le_succ hlen⟩
      rw [Consecutive] at hc ⊢
      rw [List.take_succ_cons, List.map_cons, hc, List.length_cons, List.range'_succ, heq]

theorem le_of_mem_dropWhile {ledgers : List RawLedger} {first : LedgerNumber}
    (hs : ledgers.Pairwise fun l l' => l.sequence < l'.sequence) {ledger : RawLedger}
    (h : ledger ∈ ledgers.dropWhile fun l => l.sequence < first) : first ≤ ledger.sequence := by
  induction ledgers with
  | nil => cases h
  | cons l ledgers ih =>
    obtain ⟨hbelow, hs⟩ := List.pairwise_cons.mp hs
    rw [List.dropWhile_cons] at h
    split at h
    · exact ih hs h
    · rename_i hge
      have hle : first ≤ l.sequence := by simpa using hge
      rcases List.mem_cons.mp h with rfl | h
      · exact hle
      · exact UInt32.le_trans hle (UInt32.le_of_lt (hbelow ledger h))

theorem mem_dropWhile {ledgers : List RawLedger} {first : LedgerNumber} {ledger : RawLedger}
    (h : ledger ∈ ledgers) (hle : first ≤ ledger.sequence) :
    ledger ∈ ledgers.dropWhile fun l => l.sequence < first := by
  induction ledgers with
  | nil => cases h
  | cons l ledgers ih =>
    rw [List.dropWhile_cons]
    split
    · rename_i hlt
      rcases List.mem_cons.mp h with rfl | h
      · exact absurd (of_decide_eq_true hlt) (UInt32.not_lt.mpr hle)
      · exact ih h
    · exact h

theorem length_inSequence (ledgers : List RawLedger) {target expected : LedgerNumber}
    (h : expected.toNat ≤ target.toNat + 1) :
    expected.toNat + (inSequence target expected ledgers).length ≤ target.toNat + 1 := by
  fun_induction inSequence target expected ledgers with
  | case1 | case3 | case4 => simpa using h
  | case2 _ _ _ _ ih => exact ih h
  | case5 ledger _ hle _ heq =>
    rw [Decidable.not_not] at heq
    rw [← heq, List.length_singleton]
    have := UInt32.le_iff_toNat_le.mp (UInt32.not_lt.mp hle)
    omega
  | case6 expected ledger _ _ hle heq hlast ih =>
    rw [Decidable.not_not] at heq
    have := UInt32.le_iff_toNat_le.mp (UInt32.not_lt.mp hle)
    rw [LedgerNumber.toNat_add_one hlast] at ih
    rw [List.length_cons, ← Nat.add_assoc, Nat.add_right_comm]
    exact ih (by rw [← heq]; omega)

theorem length_inSequence_of_skipsLedger {ledgers : List RawLedger}
    (h : skipsLedger target expected ledgers = true) :
    expected.toNat + (inSequence target expected ledgers).length ≤ target.toNat := by
  fun_induction inSequence target expected ledgers with
  | case1 => simp [skipsLedger] at h
  | case2 _ _ _ hlt ih =>
    rw [skipsLedger, if_pos hlt] at h
    exact ih h
  | case3 _ _ _ hge hlt =>
    rw [skipsLedger, if_neg hge, if_pos hlt] at h
    exact absurd h (by simp)
  | case4 _ _ _ hge hle =>
    have := UInt32.le_iff_toNat_le.mp (UInt32.not_lt.mp hge)
    have := UInt32.le_iff_toNat_le.mp (UInt32.not_lt.mp hle)
    rw [List.length_nil]
    omega
  | case5 _ _ hle hge hne =>
    rw [skipsLedger, if_neg hge, if_neg hle, if_neg hne, if_pos rfl] at h
    exact absurd h (by simp)
  | case6 _ _ _ hge hle hne hlast ih =>
    rw [skipsLedger, if_neg hge, if_neg hle, if_neg hne, if_neg hlast] at h
    have := ih h
    rw [LedgerNumber.toNat_add_one hlast] at this
    rw [List.length_cons]
    omega

def Decoder.payload (decoder : Decoder) (ledger : RawLedger) : List RawEvent :=
  match decoder.ledgerEvents ledger with
  | .ok raws => raws
  | .error _ => []

theorem Decoder.payload_of_ok {decoder : Decoder} {ledger : RawLedger} {raws : List RawEvent}
    (h : decoder.ledgerEvents ledger = .ok raws) : decoder.payload ledger = raws := by
  simp [payload, h]

def Decoder.Clean (decoder : Decoder) (ledger : RawLedger) : Prop :=
  ∃ raws, decoder.ledgerEvents ledger = .ok raws ∧
    ∀ raw ∈ raws, ∃ event, decoder.decode raw = .ok event

namespace Assignment

variable {a : Assignment}

theorem limit_batchRequest_le {next target : LedgerNumber} (h : next ≤ target) :
    next.toNat + (a.batchRequest next target).limit.toNat ≤ target.toNat + 1 := by
  have hle := UInt32.le_iff_toNat_le.mp h
  have hadvance := LedgerNumber.toNat_advance (target - next) 1
  rw [UInt32.toNat_sub_of_le _ _ h, UInt32.toNat_one] at hadvance
  rw [batchRequest, batchOf, LedgerNumber.toNat_min]
  omega

theorem limit_batchRequest_pos (hsize : 0 < a.config.pageSize) (next target : LedgerNumber) :
    0 < (a.batchRequest next target).limit.toNat := by
  have hpage : 0 < a.config.pageSize.toNat := UInt32.lt_iff_toNat_lt.mp hsize
  have hadvance := LedgerNumber.toNat_advance (target - next) 1
  have hword : UInt32.size = 4294967296 := rfl
  rw [UInt32.toNat_one] at hadvance
  rw [batchRequest, batchOf, LedgerNumber.toNat_min]
  omega

theorem length_of_store {store : List RawLedger} {next target : LedgerNumber} (hle : next ≤ target)
    (hs : store.Pairwise fun l l' => l.sequence < l'.sequence)
    (hall : ∀ n, next ≤ n → n ≤ target → ∃ ledger ∈ store, ledger.sequence = n) :
    let ledgers := (store.dropWhile fun l => l.sequence < next).take
      (a.batchRequest next target).limit.toNat
    ledgers.length = (a.batchRequest next target).limit.toNat ∧ Consecutive next.toNat ledgers := by
  have hmax := @limit_batchRequest_le a next target hle
  let rest := store.dropWhile fun l => l.sequence < next
  have hrest : rest.Sublist store := List.dropWhile_sublist _
  have hge : ∀ ledger ∈ rest, next.toNat ≤ ledger.sequence.toNat := fun ledger hledger =>
    UInt32.le_iff_toNat_le.mp (le_of_mem_dropWhile hs hledger)
  obtain ⟨hconsecutive, hlen⟩ := @consecutive_take rest next.toNat
    (a.batchRequest next target).limit.toNat (hs.sublist hrest) hge fun n hn hn' => by
      have hsize := target.toNat_lt_size
      have hnat : (UInt32.ofNat n).toNat = n := UInt32.toNat_ofNat_of_lt' (by omega)
      have hnext : next ≤ UInt32.ofNat n := UInt32.le_iff_toNat_le.mpr (by omega)
      obtain ⟨ledger, hledger, heq⟩ := hall (UInt32.ofNat n) hnext
        (UInt32.le_iff_toNat_le.mpr (by omega))
      exact ⟨ledger, mem_dropWhile hledger (heq ▸ hnext), by rw [heq, hnat]⟩
  exact ⟨List.length_take_of_le hlen, hconsecutive⟩

theorem batch_of_store {store : List RawLedger} {next target : LedgerNumber}
    (hsize : 0 < a.config.pageSize) (hle : next ≤ target)
    (hs : store.Pairwise fun l l' => l.sequence < l'.sequence)
    (hall : ∀ n, next ≤ n → n ≤ target → ∃ ledger ∈ store, ledger.sequence = n) :
    let ledgers := (store.dropWhile fun l => l.sequence < next).take
      (a.batchRequest next target).limit.toNat
    ledgers ≠ [] ∧ Consecutive next.toNat ledgers := by
  obtain ⟨hlen, hconsecutive⟩ := @length_of_store a store next target hle hs hall
  have hpos := limit_batchRequest_pos hsize next target
  exact ⟨List.ne_nil_of_length_pos (Nat.lt_of_lt_of_eq hpos hlen.symm), hconsecutive⟩

def Reads (a : Assignment) (filters : List EventFilter) (sink : Sink) (ledgers : List RawLedger)
    (events : List ContractEvent) (sink' : Sink) : Prop :=
  (∀ ledger ∈ ledgers, ∃ raws, a.decoder.ledgerEvents ledger = .ok raws) ∧
    sink.Takes a.decoder filters (ledgers.flatMap a.decoder.payload) events sink'

theorem Reads.cons {filters : List EventFilter} {sink s sink' : Sink} {ledger : RawLedger}
    {ledgers : List RawLedger} {raws : List RawEvent} {events events' : List ContractEvent}
    (hr : a.decoder.ledgerEvents ledger = .ok raws)
    (ht : sink.Takes a.decoder filters raws events s)
    (h : a.Reads filters s ledgers events' sink') :
    a.Reads filters sink (ledger :: ledgers) (events ++ events') sink' := by
  refine ⟨fun l hl => ?_, ?_⟩
  · rcases List.mem_cons.mp hl with rfl | hl
    · exact ⟨raws, hr⟩
    · exact h.1 l hl
  · rw [List.flatMap_cons, Decoder.payload_of_ok hr]
    exact ht.append h.2

inductive LedgerFault (a : Assignment) (moments : List (Moment a)) (ledger : RawLedger) :
    List RawEvent → IngestError → Prop
  | unreadable {cause : DecodeError} (h : a.decoder.ledgerEvents ledger = .error cause) :
      LedgerFault a moments ledger [] (.decode ledger.sequence cause)
  | event {taken rest : List RawEvent} {raw : RawEvent} {error : IngestError}
      (h : a.decoder.ledgerEvents ledger = .ok (taken ++ raw :: rest))
      (hf : a.Fault moments raw error) : LedgerFault a moments ledger (taken ++ [raw]) error

theorem LedgerFault.mono {moments later : List (Moment a)} {ledger : RawLedger}
    {part : List RawEvent} {error : IngestError} (h : a.LedgerFault moments ledger part error)
    (hm : moments ⊆ later) : a.LedgerFault later ledger part error := by
  cases h with
  | unreadable h => exact .unreadable h
  | event h hf => exact .event h (hf.mono hm)

def FaltersIn (a : Assignment) (moments : List (Moment a)) (sink : Sink) (ledgers : List RawLedger)
    (sink' : Sink) (error : IngestError) : Prop :=
  ∃ done ledger rest part, ledgers = done ++ ledger :: rest ∧
    (∀ l ∈ done, ∃ raws, a.decoder.ledgerEvents l = .ok raws) ∧
    sink'.offered = sink.offered ++ done.flatMap a.decoder.payload ++ part ∧
    a.LedgerFault moments ledger part error

theorem FaltersIn.append {moments later : List (Moment a)} {sink s sink' : Sink}
    {taken ledgers : List RawLedger} {error : IngestError}
    (h : a.FaltersIn moments s ledgers sink' error)
    (hr : ∀ l ∈ taken, ∃ raws, a.decoder.ledgerEvents l = .ok raws)
    (hs : s.offered = sink.offered ++ taken.flatMap a.decoder.payload) (hm : moments ⊆ later) :
    a.FaltersIn later sink (taken ++ ledgers) sink' error := by
  obtain ⟨done, last, rest, part, rfl, hd, ho, hf⟩ := h
  refine ⟨taken ++ done, last, rest, part, (List.append_assoc ..).symm, fun l hl => ?_, ?_,
    hf.mono hm⟩
  · exact (List.mem_append.mp hl).elim (hr l) (hd l)
  · simp [ho, hs]

theorem FaltersIn.cons {moments later : List (Moment a)} {sink s sink' : Sink}
    {ledger : RawLedger} {ledgers : List RawLedger} {raws : List RawEvent} {error : IngestError}
    (h : a.FaltersIn moments s ledgers sink' error)
    (hr : a.decoder.ledgerEvents ledger = .ok raws) (hs : s.offered = sink.offered ++ raws)
    (hm : moments ⊆ later) : a.FaltersIn later sink (ledger :: ledgers) sink' error := by
  have hone : ∀ l ∈ [ledger], ∃ raws, a.decoder.ledgerEvents l = .ok raws :=
    fun l hl => ⟨raws, List.mem_singleton.mp hl ▸ hr⟩
  exact h.append hone (by simp [hs, Decoder.payload_of_ok hr]) hm

theorem Falters.faltersIn {moments : List (Moment a)} {sink sink' : Sink} {ledger : RawLedger}
    {raws : List RawEvent} {error : IngestError} (h : a.Falters moments sink raws sink' error)
    (hr : a.decoder.ledgerEvents ledger = .ok raws) (ledgers : List RawLedger) :
    a.FaltersIn moments sink (ledger :: ledgers) sink' error := by
  obtain ⟨taken, raw, rest, rfl, ho, hf⟩ := h
  exact ⟨[], ledger, ledgers, taken ++ [raw], rfl, by simp, by simp [ho], .event hr hf⟩

def endTaken (a : Assignment) (signals : Signals) (sink : Sink) (b : Batch) (taken : Nat)
    (skips : Bool) : Progress :=
  let expected := b.expected + UInt32.ofNat taken
  if skips then failed sink (.archiveGap expected b.archiveLatest)
  else if b.expected.toNat + taken = UInt32.size then
    a.endAtLast sink { b with expected := .last }
  else a.endBatch signals sink { b with expected }

theorem endTaken_succ (signals : Signals) (sink : Sink) {b : Batch} (h : b.expected ≠ .last)
    (taken : Nat) (skips : Bool) :
    a.endTaken signals sink { b with expected := b.expected + 1 } taken skips =
      a.endTaken signals sink b (taken + 1) skips := by
  have hexpected : b.expected + 1 + UInt32.ofNat taken = b.expected + UInt32.ofNat (taken + 1) := by
    rw [UInt32.ofNat_add, UInt32.add_assoc, UInt32.add_comm 1]
    rfl
  simp only [endTaken, hexpected, LedgerNumber.toNat_add_one h, Nat.add_assoc, Nat.add_comm 1]

theorem endTaken_zero (signals : Signals) (sink : Sink) (b : Batch) :
    a.endTaken signals sink b 0 false = a.endBatch signals sink b := by
  have := b.expected.toNat_lt_size
  rw [endTaken, if_neg (by simp), if_neg (by omega)]
  simp

theorem endTaken_skips (signals : Signals) (sink : Sink) (b : Batch) :
    a.endTaken signals sink b 0 true = failed sink (.archiveGap b.expected b.archiveLatest) := by
  simp [endTaken]

theorem endTaken_last (signals : Signals) (sink : Sink) {b : Batch} (h : b.expected = .last) :
    a.endTaken signals sink b 1 false = a.endAtLast sink b := by
  rw [endTaken, if_neg (by simp), if_pos (by rw [h]; rfl), ← h]

theorem offerBatch_cons (signals : Signals) (sink : Sink) (b : Batch) (ledger : RawLedger)
    (ledgers : List RawLedger) :
    a.offerBatch signals sink b (ledger :: ledgers) =
      if ledger.sequence < b.expected then a.offerBatch signals sink b ledgers
      else if b.target < ledger.sequence then a.endBatch signals sink b
      else if ledger.sequence ≠ b.expected then
        failed sink (.archiveGap b.expected b.archiveLatest)
      else
        match a.decoder.ledgerEvents ledger with
        | .error error => failed sink (.decode ledger.sequence error)
        | .ok raws =>
          a.offerThen signals sink b.filters b.expected (.batch b · ledgers) raws fun sink =>
            if b.expected = .last then a.endAtLast sink b
            else a.offerBatch signals sink { b with expected := b.expected + 1 } ledgers := rfl

/-- The ledgers of a page that are in sequence are all taken, or the run ends at one of them. -/
theorem offerBatch_leads {w : World a} {P : Signals → Prop}
    (hP : ∀ {signals}, P signals → signals.stop = false)
    (hw : ∀ history, P (w.signals history)) (ledgers : List RawLedger) (before : List (Moment a))
    {signals : Signals} (hs : P signals) (sink : Sink) (b : Batch) :
    (∃ moments signals' sink' events, P signals' ∧
      w.Leads before (a.offerBatch signals sink b ledgers) moments
        (a.endTaken signals' sink' b (inSequence b.target b.expected ledgers).length
          (skipsLedger b.target b.expected ledgers)) ∧
      a.Reads b.filters sink (inSequence b.target b.expected ledgers) events sink' ∧
      asked moments = events.map .handle) ∨
    ∃ moments sink' error, ∃ events : List ContractEvent,
      w.Leads before (a.offerBatch signals sink b ledgers) moments (failed sink' error) ∧
      a.FaltersIn moments sink (inSequence b.target b.expected ledgers) sink' error ∧
      asked moments = events.map .handle := by
  -- the page is read off ledger by ledger; one that is taken changes batch, sink and history
  induction ledgers generalizing before signals sink b with
  | nil =>
    refine .inl ⟨[], signals, sink, [], hs, ?_, ⟨by simp [inSequence], .nil sink⟩, rfl⟩
    rw [inSequence, List.length_nil, skipsLedger, endTaken_zero]
    exact .refl ..
  | cons ledger ledgers ih =>
    rw [offerBatch_cons, inSequence, skipsLedger]
    by_cases hbelow : ledger.sequence < b.expected
    · rw [if_pos hbelow, if_pos hbelow, if_pos hbelow]
      exact ih before hs sink b
    rw [if_neg hbelow, if_neg hbelow, if_neg hbelow]
    by_cases habove : b.target < ledger.sequence
    · rw [if_pos habove, if_pos habove, if_pos habove]
      refine .inl ⟨[], signals, sink, [], hs, ?_, ⟨by simp, .nil sink⟩, rfl⟩
      rw [List.length_nil, endTaken_zero]
      exact .refl ..
    rw [if_neg habove, if_neg habove, if_neg habove]
    by_cases hgap : ledger.sequence ≠ b.expected
    · rw [if_pos hgap, if_pos hgap, if_pos hgap]
      refine .inl ⟨[], signals, sink, [], hs, ?_, ⟨by simp, .nil sink⟩, rfl⟩
      rw [List.length_nil, endTaken_skips]
      exact .refl ..
    rw [if_neg hgap, if_neg hgap, if_neg hgap]
    cases hr : a.decoder.ledgerEvents ledger with
    | error cause =>
      refine .inr ⟨[], sink, _, [], .refl .., ?_, rfl⟩
      split
      · exact ⟨[], ledger, [], [], rfl, by simp, by simp, .unreadable hr⟩
      · exact ⟨[], ledger, _, [], rfl, by simp, by simp, .unreadable hr⟩
    | ok raws =>
      dsimp only
      rcases offerThen_leads hP hw (continues_batch b ledgers) raws before hs sink with
        ⟨moments, signals', s, events, hs', hl, ht, ha⟩ |
        ⟨moments, sink', error, events, hl, hf, ha⟩
      · by_cases hlast : b.expected = .last
        · rw [if_pos hlast] at hl
          rw [if_pos hlast, if_pos hlast]
          refine .inl ⟨moments, signals', s, events, hs', ?_, ?_, ha⟩
          · rw [List.length_singleton, endTaken_last _ _ hlast]
            exact hl
          · exact ⟨by simp [hr], by simpa [Decoder.payload_of_ok hr] using ht⟩
        · rw [if_neg hlast] at hl
          rw [if_neg hlast, if_neg hlast]
          rcases ih (moments ++ before) hs' s { b with expected := b.expected + 1 } with
            ⟨later, signals'', sink'', events', hs'', hl', hr', ha'⟩ |
            ⟨later, sink'', error, events', hl', hf, ha'⟩
          · refine .inl ⟨later ++ moments, signals'', sink'', events ++ events', hs'', ?_,
              hr'.cons hr ht, by simp [ha, ha']⟩
            rw [endTaken_succ _ _ hlast] at hl'
            exact hl.trans hl'
          · refine .inr ⟨later ++ moments, sink'', error, events ++ events', hl.trans hl',
              hf.cons hr ht.offered (by simp), by simp [ha, ha']⟩
      · refine .inr ⟨moments, sink', error, events, hl, ?_, ha⟩
        split
        · exact hf.faltersIn hr _
        · exact hf.faltersIn hr _

end Assignment

variable {a : Assignment}

def Moment.batch? : Moment a → Option LedgersPage
  | ⟨.ledgers _ _, _, .ok page⟩ => some page
  | _ => none

def batches (history : List (Moment a)) : List LedgersPage :=
  history.reverse.filterMap Moment.batch?

@[simp] theorem batches_append (later earlier : List (Moment a)) :
    batches (later ++ earlier) = batches earlier ++ batches later := by
  simp [batches]

theorem Moment.batch?_eq_none {m : Moment a} (h : m.question.ledgers? = none) :
    m.batch? = none := by
  obtain ⟨pending, signals, reply⟩ := m
  cases pending <;> first | rfl | cases h

theorem batches_eq_nil {history : List (Moment a)} (h : ledgersAsked history = []) :
    batches history = [] := by
  rw [ledgersAsked, asked, List.filterMap_map, List.filterMap_eq_nil_iff] at h
  exact List.filterMap_eq_nil_iff.mpr fun m hm => Moment.batch?_eq_none (h m hm)

namespace Assignment

variable {w : World a} {P : Signals → Prop}

/-- What a batch comes to once so many ledgers of its page were taken. -/
inductive BatchEnd (a : Assignment) (P : Signals → Prop) (sink : Sink)
    (next target latest : LedgerNumber) (taken : Nat) (skips : Bool) : Progress → Prop
  | gap (h : skips = true ∨ taken = 0) (hle : next.toNat + taken ≤ target.toNat) :
      BatchEnd a P sink next target latest taken skips
        (failed sink (.archiveGap (next + UInt32.ofNat taken) latest))
  | done (h : next.toNat + taken = target.toNat + 1) (measured : List Measurement) :
      BatchEnd a P sink next target latest taken skips
        (a.endBackfill { sink with measured } target)
  | more (h : 0 < taken) (hle : next.toNat + taken ≤ target.toNat) (measured : List Measurement)
      {signals : Signals} (hs : P signals) :
      BatchEnd a P sink next target latest taken skips
        (a.backfill signals { sink with measured } (next + UInt32.ofNat taken) target)

theorem endTaken_done (signals : Signals) (sink : Sink) {next target : LedgerNumber}
    (latest : LedgerNumber) (filters : List EventFilter) {taken : Nat}
    (hle : next.toNat ≤ target.toNat) (hdone : next.toNat + taken = target.toNat + 1) :
    ∃ measured, a.endTaken signals sink ⟨next, target, next, latest, filters⟩ taken false =
      a.endBackfill { sink with measured } target := by
  have hsize := target.toNat_lt_size
  rw [endTaken, if_neg (by simp)]
  by_cases hlast : next.toNat + taken = UInt32.size
  · rw [if_pos hlast]
    exact ⟨_, rfl⟩
  · have hexpected : (next + UInt32.ofNat taken).toNat = next.toNat + taken :=
      LedgerNumber.toNat_add_ofNat (by omega)
    have hne : next + UInt32.ofNat taken ≠ next := fun heq => by
      rw [heq] at hexpected
      omega
    have hlt : target < next + UInt32.ofNat taken := UInt32.lt_iff_toNat_lt.mpr (by omega)
    rw [if_neg hlast, endBatch, if_neg hne]
    exact ⟨_, if_pos hlt⟩

theorem endTaken_more (signals : Signals) (sink : Sink) {next target : LedgerNumber}
    (latest : LedgerNumber) (filters : List EventFilter) {taken : Nat} (hpos : 0 < taken)
    (hle : next.toNat + taken ≤ target.toNat) :
    ∃ measured, a.endTaken signals sink ⟨next, target, next, latest, filters⟩ taken false =
      a.wait signals { sink with measured } a.config.archivalWait
        (.betweenBatches (next + UInt32.ofNat taken) target) := by
  have hsize := target.toNat_lt_size
  have hexpected : (next + UInt32.ofNat taken).toNat = next.toNat + taken :=
    LedgerNumber.toNat_add_ofNat (by omega)
  have hne : next + UInt32.ofNat taken ≠ next := fun heq => by
    rw [heq] at hexpected
    omega
  have hge : ¬target < next + UInt32.ofNat taken :=
    UInt32.not_lt.mpr (UInt32.le_iff_toNat_le.mpr (by omega))
  rw [endTaken, if_neg (by simp), if_neg (by dsimp only; omega), endBatch, if_neg hne]
  exact ⟨_, if_neg hge⟩

theorem endTaken_leads (hP : ∀ {signals}, P signals → signals.stop = false)
    (hw : ∀ history, P (w.signals history)) (before : List (Moment a)) {signals : Signals}
    (hs : P signals) (sink : Sink) {next target : LedgerNumber} (latest : LedgerNumber)
    (filters : List EventFilter) {taken : Nat} {skips : Bool} (hle : next.toNat ≤ target.toNat)
    (hmax : next.toNat + taken ≤ target.toNat + 1)
    (hskips : skips = true → next.toNat + taken ≤ target.toNat) :
    ∃ moments p, Idle moments ∧
      w.Leads before
        (a.endTaken signals sink ⟨next, target, next, latest, filters⟩ taken skips) moments p ∧
      a.BatchEnd P sink next target latest taken skips p := by
  cases skips with
  | true => exact ⟨[], _, idle_nil, .refl .., .gap (.inl rfl) (hskips rfl)⟩
  | false =>
    rcases Nat.eq_zero_or_pos taken with rfl | hpos
    · rw [endTaken_zero, endBatch, if_pos rfl]
      refine ⟨[], _, idle_nil, .refl .., ?_⟩
      simpa using @BatchEnd.gap a P sink next target latest 0 false (.inr rfl) hle
    rcases Nat.lt_or_ge target.toNat (next.toNat + taken) with hdone | hmore
    · obtain ⟨measured, hend⟩ := a.endTaken_done signals sink latest filters hle
        (Nat.le_antisymm hmax hdone)
      rw [hend]
      exact ⟨[], _, idle_nil, .refl .., .done (Nat.le_antisymm hmax hdone) measured⟩
    · obtain ⟨measured, hend⟩ := a.endTaken_more signals sink latest filters hpos hmore
      obtain ⟨moments, signals', hs', hl, hidle⟩ := World.wait_leads hP hw hs before
        { sink with measured } a.config.archivalWait
        (.betweenBatches (next + UInt32.ofNat taken) target)
      rw [hend]
      exact ⟨moments, _, hidle, hl, .more hpos hmore measured hs'⟩

/-- The moments of one batch: the archive gave a page, and the handler got events of it. -/
structure BatchOf (request : LedgersRequest) (page : LedgersPage) (events : List ContractEvent)
    (moments : List (Moment a)) : Prop where
  received : LedgerFeed.received moments = events
  ledgersAsked : LedgerFeed.ledgersAsked moments = [request]
  batches : LedgerFeed.batches moments = [page]

theorem batchOf_moments {before moments idle : List (Moment a)} {next target : LedgerNumber}
    {page : LedgersPage} {events : List ContractEvent}
    (hr : w.reply before (.ledgers (a.batchRequest next target)) = .ok page)
    (ha : asked moments = events.map .handle) (hidle : Idle idle) :
    BatchOf (a.batchRequest next target) page events
      (idle ++ (moments ++ [w.moment before (.ledgers next target)])) := by
  have hbatch : (w.moment before (.ledgers next target)).batch? = some page := by
    rw [World.moment, Moment.batch?.eq_def]
    exact hr ▸ rfl
  constructor
  · rw [received_append, received_append, received_of_handle ha, hidle.received]
    simp [LedgerFeed.received, asked, Moment.question, World.moment, Pending.question,
      Question.event?]
  · rw [ledgersAsked_append, ledgersAsked_append, ledgersAsked_of_handle ha, hidle.ledgersAsked]
    rfl
  · rw [batches_append, batches_append, batches_eq_nil (ledgersAsked_of_handle ha),
      batches_eq_nil hidle.ledgersAsked, LedgerFeed.batches]
    simp [hbatch]

theorem batch_leads_asked (hP : ∀ {signals}, P signals → signals.stop = false)
    (hw : ∀ history, P (w.signals history)) (before : List (Moment a)) {signals : Signals}
    (hs : P signals) (sink : Sink) {next target : LedgerNumber} (hle : next ≤ target)
    {page : LedgersPage}
    (hr : w.reply before (.ledgers (a.batchRequest next target)) = .ok page) :
    (∃ idle verdicts events sink' p, Idle idle ∧ asked verdicts = events.map .handle ∧
      w.Leads before (a.backfill signals sink next target)
        (idle ++ (verdicts ++ [w.moment before (.ledgers next target)])) p ∧
      a.Reads (w.signals before).filters (sink.measure (.page .backfill))
        (inSequence target next page.ledgers) events sink' ∧
      a.BatchEnd P sink' next target page.latest (inSequence target next page.ledgers).length
        (skipsLedger target next page.ledgers) p) ∨
    ∃ verdicts, ∃ events : List ContractEvent, ∃ sink' error,
      asked verdicts = events.map .handle ∧
      w.Leads before (a.backfill signals sink next target)
        (verdicts ++ [w.moment before (.ledgers next target)]) (failed sink' error) ∧
      a.FaltersIn (verdicts ++ [w.moment before (.ledgers next target)])
        (sink.measure (.page .backfill)) (inSequence target next page.ledgers) sink' error := by
  have hle' := UInt32.le_iff_toNat_le.mp hle
  rw [backfill, if_neg (UInt32.not_lt.mpr hle), if_neg (by simp [hP hs])]
  rcases offerBatch_leads hP hw page.ledgers (w.moment before (.ledgers next target) :: before)
    (hw before) (sink.measure (.page .backfill))
    ⟨next, target, next, page.latest, (w.signals before).filters⟩ with
    ⟨verdicts, signals', sink', events, hs', hl, hread, ha⟩ |
    ⟨verdicts, sink', error, events, hl, hf, ha⟩
  · obtain ⟨idle, p, hidle, hl', hend⟩ := endTaken_leads hP hw
      (verdicts ++ (w.moment before (.ledgers next target) :: before)) hs' sink' page.latest
      (w.signals before).filters hle' (length_inSequence page.ledgers (by omega))
      length_inSequence_of_skipsLedger
    refine .inl ⟨idle, verdicts, events, sink', p, hidle, ha, ?_, hread, hend⟩
    rw [← List.append_assoc]
    exact World.leads_ledgers hr (hl.trans hl')
  · refine .inr ⟨verdicts, events, sink', error, ha, World.leads_ledgers hr hl, ?_⟩
    obtain ⟨done, ledger, rest, part, h, hd, ho, hf⟩ := hf
    exact ⟨done, ledger, rest, part, h, hd, ho, hf.mono (by simp)⟩

/-- A backfill that goes on asks for one batch and takes what continues the sequence. -/
theorem batch_leads (hP : ∀ {signals}, P signals → signals.stop = false)
    (hw : ∀ history, P (w.signals history)) (before : List (Moment a)) {signals : Signals}
    (hs : P signals) (sink : Sink) {next target : LedgerNumber} (hle : next ≤ target)
    {page : LedgersPage}
    (hr : w.reply before (.ledgers (a.batchRequest next target)) = .ok page) :
    (∃ moments events sink' p,
      w.Leads before (a.backfill signals sink next target) moments p ∧
      a.Reads (w.signals before).filters (sink.measure (.page .backfill))
        (inSequence target next page.ledgers) events sink' ∧
      a.BatchEnd P sink' next target page.latest (inSequence target next page.ledgers).length
        (skipsLedger target next page.ledgers) p ∧
      BatchOf (a.batchRequest next target) page events moments) ∨
    ∃ moments events sink' error,
      w.Leads before (a.backfill signals sink next target) moments (failed sink' error) ∧
      a.FaltersIn moments (sink.measure (.page .backfill)) (inSequence target next page.ledgers)
        sink' error ∧
      BatchOf (a.batchRequest next target) page events moments := by
  rcases batch_leads_asked hP hw before hs sink hle hr with
    ⟨idle, verdicts, events, sink', p, hidle, ha, hl, hread, hend⟩ |
    ⟨verdicts, events, sink', error, ha, hl, hf⟩
  · exact .inl ⟨_, events, sink', p, hl, hread, hend, batchOf_moments hr ha hidle⟩
  · exact .inr ⟨_, events, sink', error, hl, hf, batchOf_moments hr ha idle_nil⟩

end Assignment

theorem World.Unhindered.not_faltersIn {w : World a} (h : w.Unhindered)
    {before moments : List (Moment a)} {p q : Progress} (hl : w.Leads before p moments q)
    {ledgers : List RawLedger} (hclean : ∀ ledger ∈ ledgers, a.decoder.Clean ledger)
    {sink sink' : Sink} {error : IngestError} :
    ¬a.FaltersIn moments sink ledgers sink' error := by
  rintro ⟨done, ledger, others, part, rfl, -, -, hfault⟩
  obtain ⟨raws, hread, hdecodes⟩ :=
    hclean ledger (List.mem_append_right _ (List.mem_cons_self ..))
  cases hfault with
  | unreadable he =>
    rw [hread] at he
    cases he
  | event he hfault =>
    obtain ⟨cause, hcause, -⟩ := h.cause_of_fault hl hfault
    obtain rfl := Except.ok.inj (hread.symm.trans he)
    obtain ⟨event, hdecode⟩ := hdecodes _ (List.mem_append_right _ (List.mem_cons_self ..))
    rw [hcause] at hdecode
    cases hdecode

end LedgerFeed
