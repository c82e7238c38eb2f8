import LedgerFeed.Proofs.World

/-! Offering a list of events in a run that is not stopped. Either the sink takes all of them, one
after the other, or the run fails at one that does not decode or that the handler refuses. -/

namespace LedgerFeed

namespace RecentIds

def Holds (r : RecentIds) (ids : List String) : Prop :=
  r.ids = ids.reverse.take r.capacity

theorem holds_ofCapacity (capacity : Nat) : (ofCapacity capacity).Holds [] := by
  simp [Holds, ofCapacity]

variable {r : RecentIds} {ids : List String} {id : String}

theorem Holds.not_contains (h : r.Holds ids) (hid : id ∉ ids) : r.contains id = false := by
  have hlatest : id ∉ ids.reverse.take r.capacity := by
    intro hmem
    exact hid (List.mem_reverse.mp (List.mem_of_mem_take hmem))
  rw [contains, h]
  simpa using hlatest

theorem Holds.contains {older latest : List String} (h : r.Holds (older ++ latest))
    (hle : latest.length ≤ r.capacity) (hid : id ∈ latest) : r.contains id = true := by
  rw [RecentIds.contains, h, List.reverse_append, List.take_append,
    List.take_of_length_le (by simpa using hle)]
  simp [hid]

theorem Holds.contains_latest {older latest : List RawEvent}
    (h : r.Holds ((older ++ latest).map RawEvent.id)) (hle : latest.length ≤ r.capacity) :
    ∀ raw ∈ latest, r.contains raw.id = true := by
  intro raw hraw
  rw [List.map_append] at h
  exact h.contains ((List.length_map RawEvent.id).symm ▸ hle) (List.mem_map_of_mem hraw)

theorem Holds.insert (h : r.Holds ids) (hc : r.contains id = false) :
    (r.record id).Holds (ids ++ [id]) := by
  rw [Holds, ids_record_of_not_contains hc, capacity_record, h]
  cases r.capacity with
  | zero => rfl
  | succ n => simp [List.take_take]

theorem Holds.record (h : r.Holds ids) (hid : id ∉ ids) : (r.record id).Holds (ids ++ [id]) :=
  h.insert (h.not_contains hid)

end RecentIds

/-- The events of a list that decode and that the filters let pass, decoded. -/
def Decoder.selected (decoder : Decoder) (filters : List EventFilter) (raws : List RawEvent) :
    List ContractEvent :=
  raws.filterMap fun raw =>
    match decoder.decode raw with
    | .ok event => if wanted filters event then some event else none
    | .error _ => none

namespace Decoder

variable {decoder : Decoder} {filters : List EventFilter} {raw : RawEvent} {event : ContractEvent}

@[simp] theorem selected_nil : decoder.selected filters [] = [] := rfl

@[simp] theorem selected_append (xs ys : List RawEvent) :
    decoder.selected filters (xs ++ ys) =
      decoder.selected filters xs ++ decoder.selected filters ys := by
  simp [selected]

theorem selected_cons_of_wanted (h : decoder.decode raw = .ok event)
    (hw : wanted filters event = true) (raws : List RawEvent) :
    decoder.selected filters (raw :: raws) = event :: decoder.selected filters raws := by
  simp [selected, h, hw]

theorem selected_cons_of_not_wanted (h : decoder.decode raw = .ok event)
    (hw : wanted filters event = false) (raws : List RawEvent) :
    decoder.selected filters (raw :: raws) = decoder.selected filters raws := by
  simp [selected, h, hw]

theorem filter_selected
    (hkeeps : ∀ raw event, decoder.decode raw = .ok event → event.ledger = raw.ledger)
    (p : LedgerNumber → Bool) (raws : List RawEvent) :
    (decoder.selected filters raws).filter (fun event => p event.ledger) =
      decoder.selected filters (raws.filter fun raw => p raw.ledger) := by
  induction raws with
  | nil => rfl
  | cons raw raws ih =>
    rw [List.filter_cons]
    cases hd : decoder.decode raw with
    | error cause =>
      have hskip (raws : List RawEvent) :
          decoder.selected filters (raw :: raws) = decoder.selected filters raws := by
        simp [selected, hd]
      split <;> simp only [hskip, ih]
    | ok event =>
      have hledger := hkeeps raw event hd
      cases hw : wanted filters event with
      | true =>
        rw [selected_cons_of_wanted hd hw, List.filter_cons, hledger]
        split
        · rw [selected_cons_of_wanted hd hw, ih]
        · exact ih
      | false =>
        rw [selected_cons_of_not_wanted hd hw]
        split
        · rw [selected_cons_of_not_wanted hd hw, ih]
        · exact ih

theorem ledger_of_standard {raw : RawEvent} {event : ContractEvent}
    (h : standard.decode raw = .ok event) : event.ledger = raw.ledger := by
  change raw.decode = .ok event at h
  unfold RawEvent.decode at h
  split at h
  · cases h
  split at h
  · cases h
  split at h
  · cases h
  · obtain rfl := Except.ok.inj h
    rfl

end Decoder

namespace Sink

variable {decoder : Decoder} {filters : List EventFilter} {s s' : Sink}
  {raws others : List RawEvent} {events : List ContractEvent}

/-- Offering events one after the other takes a sink to another, where the handler accepts what it
is given. -/
inductive Takes (decoder : Decoder) (filters : List EventFilter) :
    Sink → List RawEvent → List ContractEvent → Sink → Prop
  | nil (s : Sink) : Takes decoder filters s [] [] s
  | duplicate {s s' : Sink} {raw : RawEvent} {raws : List RawEvent} {events : List ContractEvent}
      (hj : s.judge decoder filters raw = .duplicate)
      (h : Takes decoder filters (s.note raw .duplicate).skipDuplicate raws events s') :
      Takes decoder filters s (raw :: raws) events s'
  | filtered {s s' : Sink} {raw : RawEvent} {raws : List RawEvent} {events : List ContractEvent}
      (hj : s.judge decoder filters raw = .filtered)
      (h : Takes decoder filters ((s.note raw .filtered).skipFiltered raw) raws events s') :
      Takes decoder filters s (raw :: raws) events s'
  | wanted {s s' : Sink} {raw : RawEvent} {raws : List RawEvent} {event : ContractEvent}
      {events : List ContractEvent} (hj : s.judge decoder filters raw = .wanted event)
      (h : Takes decoder filters ((s.note raw (.wanted event)).deliver raw) raws events s') :
      Takes decoder filters s (raw :: raws) (event :: events) s'

theorem Takes.offered (h : s.Takes decoder filters raws events s') :
    s'.offered = s.offered ++ raws := by
  induction h with
  | nil => simp
  | duplicate _ _ ih | filtered _ _ ih | wanted _ _ ih => simp [ih]

theorem Takes.delivered (h : s.Takes decoder filters raws events s') :
    s'.delivered = s.delivered + .ofNat events.length := by
  induction h with
  | nil => exact (UInt64.add_zero _).symm
  | duplicate _ _ ih | filtered _ _ ih => simpa using ih
  | wanted _ _ ih =>
    rw [ih]
    simp only [delivered_deliver, delivered_note, List.length_cons, UInt64.ofNat_add,
      UInt64.add_assoc, UInt64.add_comm 1, UInt64.ofNat_one]

theorem Takes.capacity (h : s.Takes decoder filters raws events s') :
    s'.recent.capacity = s.recent.capacity := by
  induction h with
  | nil => rfl
  | duplicate _ _ ih | filtered _ _ ih | wanted _ _ ih => simpa using ih

theorem Takes.append {s₁ : Sink} {events' : List ContractEvent}
    (h : s.Takes decoder filters raws events s₁) (h' : s₁.Takes decoder filters others events' s') :
    s.Takes decoder filters (raws ++ others) (events ++ events') s' := by
  induction h with
  | nil => exact h'
  | duplicate hj _ ih => exact .duplicate hj (ih h')
  | filtered hj _ ih => exact .filtered hj (ih h')
  | wanted hj _ ih => exact .wanted hj (ih h')

theorem takes_append (h : s.Takes decoder filters (raws ++ others) events s') :
    ∃ s₁ events₁ events₂, s.Takes decoder filters raws events₁ s₁ ∧
      s₁.Takes decoder filters others events₂ s' ∧ events = events₁ ++ events₂ := by
  induction raws generalizing s events with
  | nil => exact ⟨s, [], events, .nil s, h, rfl⟩
  | cons raw raws ih =>
    cases h with
    | duplicate hj h =>
      obtain ⟨s₁, events₁, events₂, h₁, h₂, he⟩ := ih h
      exact ⟨s₁, events₁, events₂, .duplicate hj h₁, h₂, he⟩
    | filtered hj h =>
      obtain ⟨s₁, events₁, events₂, h₁, h₂, he⟩ := ih h
      exact ⟨s₁, events₁, events₂, .filtered hj h₁, h₂, he⟩
    | wanted hj h =>
      obtain ⟨s₁, events₁, events₂, h₁, h₂, rfl⟩ := ih h
      exact ⟨s₁, _ :: events₁, events₂, .wanted hj h₁, h₂, rfl⟩

theorem Takes.of_contains (h : s.Takes decoder filters raws events s')
    (hc : ∀ raw ∈ raws, s.recent.contains raw.id = true) : events = [] ∧ s'.recent = s.recent := by
  induction h with
  | nil => exact ⟨rfl, rfl⟩
  | duplicate _ _ ih => simpa using ih (fun raw hraw => hc raw (List.mem_cons_of_mem _ hraw))
  | filtered hj =>
    rw [judge_eq_filtered_iff, hc _ (List.mem_cons_self ..)] at hj
    exact absurd hj.1 (by simp)
  | wanted hj =>
    rw [judge_eq_wanted_iff, hc _ (List.mem_cons_self ..)] at hj
    exact absurd hj.1 (by simp)

theorem id_not_mem_of_nodup {done : List RawEvent} {raw : RawEvent}
    (hn : ((done ++ raw :: raws).map RawEvent.id).Nodup) : raw.id ∉ done.map RawEvent.id := by
  rw [List.map_append, List.map_cons, List.nodup_append] at hn
  intro hmem
  exact hn.2.2 _ hmem _ (List.mem_cons_self ..) rfl

theorem holds_record_of_nodup {done : List RawEvent} {raw : RawEvent}
    (hs : s.recent.Holds (done.map RawEvent.id))
    (hn : ((done ++ raw :: raws).map RawEvent.id).Nodup) :
    (s.recent.record raw.id).Holds ((done ++ [raw]).map RawEvent.id) := by
  simpa using hs.record (id_not_mem_of_nodup hn)

theorem Takes.of_nodup {done : List RawEvent} (h : s.Takes decoder filters raws events s')
    (hs : s.recent.Holds (done.map RawEvent.id)) (hn : ((done ++ raws).map RawEvent.id).Nodup) :
    events = decoder.selected filters raws ∧
      s'.recent.Holds ((done ++ raws).map RawEvent.id) := by
  induction h generalizing done with
  | nil => simpa using hs
  | duplicate hj =>
    rw [judge_eq_duplicate_iff, hs.not_contains (id_not_mem_of_nodup hn)] at hj
    exact absurd hj (by simp)
  | filtered hj _ ih =>
    obtain ⟨-, event, hd, hw⟩ := judge_eq_filtered_iff.mp hj
    have hrecord := holds_record_of_nodup hs hn
    rw [List.append_cons] at hn ⊢
    rw [Decoder.selected_cons_of_not_wanted hd hw]
    exact ih hrecord hn
  | wanted hj _ ih =>
    obtain ⟨-, hd, hw⟩ := judge_eq_wanted_iff.mp hj
    have hrecord := holds_record_of_nodup hs hn
    rw [List.append_cons] at hn ⊢
    rw [Decoder.selected_cons_of_wanted hd hw]
    obtain ⟨rfl, hs'⟩ := ih hrecord hn
    exact ⟨rfl, hs'⟩

end Sink

variable {a : Assignment} {w : World a} {before : List (Moment a)}

inductive Assignment.Fault (a : Assignment) (moments : List (Moment a)) (raw : RawEvent) :
    IngestError → Prop
  | undecodable {cause : DecodeError} (h : a.decoder.decode raw = .error cause) :
      Fault a moments raw (.decode raw.ledger cause)
  | refused {signals : Signals} {event : ContractEvent} {origin : Origin} {verdict : Verdict}
      {sink : Sink} {error : IngestError}
      (hm : ⟨.verdict raw event origin, signals, verdict⟩ ∈ moments)
      (h : sink.settle raw verdict = .error error) : Fault a moments raw error

def Assignment.Falters (a : Assignment) (moments : List (Moment a)) (sink : Sink)
    (raws : List RawEvent) (sink' : Sink) (error : IngestError) : Prop :=
  ∃ taken raw rest, raws = taken ++ raw :: rest ∧
    sink'.offered = sink.offered ++ taken ++ [raw] ∧ a.Fault moments raw error

def Assignment.Continues (a : Assignment) (filters : List EventFilter) (ledger : LedgerNumber)
    (origin : List RawEvent → Origin) (go : Signals → Sink → Progress) : Prop :=
  ∀ (signals : Signals) (sink : Sink) (raw : RawEvent) (event : ContractEvent)
    (rest : List RawEvent) (verdict : Verdict),
    a.resume signals sink (.verdict raw event (origin rest)) verdict =
      match sink.settle raw verdict with
      | .error error => Assignment.failed sink error
      | .ok sink => a.offerThen signals sink filters ledger origin rest (go signals)

theorem continues_page (poll : Poll) (page : EventsPage) :
    a.Continues poll.request.filters poll.ledger (.page poll page) fun signals sink =>
      a.endPage signals sink poll page := by
  intro signals sink raw event rest verdict
  rfl

theorem continues_batch (b : Batch) (ledgers : List RawLedger) :
    a.Continues b.filters b.expected (.batch b · ledgers) fun signals sink =>
      if b.expected = .last then a.endAtLast sink b
      else a.offerBatch signals sink { b with expected := b.expected + 1 } ledgers := by
  intro signals sink raw event rest verdict
  rfl

theorem offerThen_cons {signals : Signals} (h : signals.stop = false) (sink : Sink)
    (filters : List EventFilter) (ledger : LedgerNumber) (origin : List RawEvent → Origin)
    (raw : RawEvent) (rest : List RawEvent) (go : Sink → Progress) :
    a.offerThen signals sink filters ledger origin (raw :: rest) go =
      match sink.judge a.decoder filters raw with
      | .duplicate =>
        a.offerThen signals (sink.note raw .duplicate).skipDuplicate filters ledger origin rest go
      | .filtered =>
        a.offerThen signals ((sink.note raw .filtered).skipFiltered raw) filters ledger origin rest
          go
      | .undecodable cause =>
        Assignment.failed (sink.note raw (.undecodable cause)) (.decode raw.ledger cause)
      | .wanted event =>
        .waiting (sink.note raw (.wanted event)) (.verdict raw event (origin rest)) := by
  simp only [Assignment.offerThen, Sink.offerAll, h, Bool.false_eq_true, if_false]
  cases sink.judge a.decoder filters raw <;> rfl

theorem settle_eq_ok_iff {sink sink' : Sink} {raw : RawEvent} {verdict : Verdict} :
    sink.settle raw verdict = .ok sink' ↔ verdict = .accepted ∧ sink' = sink.deliver raw := by
  cases verdict <;> simp [Sink.settle, eq_comm]

theorem Assignment.Fault.mono {moments later : List (Moment a)} {raw : RawEvent}
    {error : IngestError} (h : a.Fault moments raw error) (hm : moments ⊆ later) :
    a.Fault later raw error := by
  cases h with
  | undecodable h => exact .undecodable h
  | refused hmem h => exact .refused (hm hmem) h

theorem Assignment.Falters.cons {moments later : List (Moment a)} {sink s sink' : Sink}
    {raw : RawEvent} {raws : List RawEvent} {error : IngestError}
    (h : a.Falters moments s raws sink' error) (hs : s.offered = sink.offered ++ [raw])
    (hm : moments ⊆ later) : a.Falters later sink (raw :: raws) sink' error := by
  obtain ⟨taken, last, rest, rfl, ho, hf⟩ := h
  exact ⟨raw :: taken, last, rest, rfl, by simp [ho, hs], hf.mono hm⟩

theorem leads_verdict {filters : List EventFilter} {ledger : LedgerNumber}
    {origin : List RawEvent → Origin} {go : Signals → Sink → Progress}
    (hc : a.Continues filters ledger origin go) {sink : Sink} {raw : RawEvent}
    {event : ContractEvent} {rest : List RawEvent} {moments : List (Moment a)} {p : Progress}
    (h : w.Leads (w.moment before (.verdict raw event (origin rest)) :: before)
      (match sink.settle raw (w.reply before (.handle event)) with
        | .error error => Assignment.failed sink error
        | .ok sink =>
          a.offerThen (w.signals before) sink filters ledger origin rest (go (w.signals before)))
      moments p) :
    w.Leads before (.waiting sink (.verdict raw event (origin rest)))
      (moments ++ [w.moment before (.verdict raw event (origin rest))]) p :=
  .step ((hc (w.signals before) sink raw event rest (w.reply before (.handle event))).symm ▸ h)

theorem offerThen_leads {P : Signals → Prop} (hP : ∀ {signals}, P signals → signals.stop = false)
    (hw : ∀ history, P (w.signals history)) {filters : List EventFilter} {ledger : LedgerNumber}
    {origin : List RawEvent → Origin} {go : Signals → Sink → Progress}
    (hc : a.Continues filters ledger origin go) (raws : List RawEvent)
    (before : List (Moment a)) {signals : Signals} (hs : P signals) (sink : Sink) :
    (∃ moments signals' sink' events, P signals' ∧
      w.Leads before (a.offerThen signals sink filters ledger origin raws (go signals)) moments
        (go signals' sink') ∧
      sink.Takes a.decoder filters raws events sink' ∧ asked moments = events.map .handle) ∨
    ∃ moments sink' error, ∃ events : List ContractEvent,
      w.Leads before (a.offerThen signals sink filters ledger origin raws (go signals)) moments
        (Assignment.failed sink' error) ∧
      a.Falters moments sink raws sink' error ∧ asked moments = events.map .handle := by
  -- an event that the handler has to judge begins a new history, with new signals
  induction raws generalizing before signals sink with
  | nil => exact .inl ⟨[], signals, sink, [], hs, .refl .., .nil sink, rfl⟩
  | cons raw rest ih =>
    rw [offerThen_cons (hP hs)]
    cases hj : sink.judge a.decoder filters raw with
    | duplicate =>
      rcases ih before hs (sink.note raw .duplicate).skipDuplicate with
        ⟨moments, signals', sink', events, hs', hl, ht, ha⟩ |
        ⟨moments, sink', error, events, hl, hf, ha⟩
      · exact .inl ⟨moments, signals', sink', events, hs', hl, .duplicate hj ht, ha⟩
      · exact .inr ⟨moments, sink', error, events, hl, hf.cons (by simp) (fun _ => id), ha⟩
    | filtered =>
      rcases ih before hs ((sink.note raw .filtered).skipFiltered raw) with
        ⟨moments, signals', sink', events, hs', hl, ht, ha⟩ |
        ⟨moments, sink', error, events, hl, hf, ha⟩
      · exact .inl ⟨moments, signals', sink', events, hs', hl, .filtered hj ht, ha⟩
      · exact .inr ⟨moments, sink', error, events, hl, hf.cons (by simp) (fun _ => id), ha⟩
    | undecodable cause =>
      exact .inr ⟨[], _, _, [], .refl .., ⟨[], raw, rest, rfl, by simp,
        .undecodable (Sink.judge_eq_undecodable_iff.mp hj).2⟩, rfl⟩
    | wanted event =>
      have hstep :=
        @leads_verdict a w before _ _ _ _ hc (sink.note raw (.wanted event)) raw event rest
      cases hv : (sink.note raw (.wanted event)).settle raw (w.reply before (.handle event)) with
      | error error =>
        rw [hv] at hstep
        refine .inr ⟨_, _, error, [event], hstep (.refl ..), ⟨[], raw, rest, rfl, by simp, ?_⟩, rfl⟩
        exact .refused (List.mem_append_right _ (List.mem_singleton.mpr rfl)) hv
      | ok accepted =>
        rw [hv] at hstep
        obtain ⟨-, rfl⟩ := settle_eq_ok_iff.mp hv
        rcases ih (w.moment before (.verdict raw event (origin rest)) :: before) (hw before)
          ((sink.note raw (.wanted event)).deliver raw) with
          ⟨moments, signals', sink', events, hs', hl, ht, ha⟩ |
          ⟨moments, sink', error, events, hl, hf, ha⟩
        · refine .inl ⟨_, signals', sink', event :: events, hs', hstep hl, .wanted hj ht, ?_⟩
          rw [asked_append, ha]
          rfl
        · refine .inr ⟨_, sink', error, event :: events, hstep hl, hf.cons (by simp) (by simp), ?_⟩
          rw [asked_append, ha]
          rfl

/-- Nobody stops the run, and the handler accepts what it gets. -/
structure World.Unhindered (w : World a) : Prop where
  runs : ∀ history, (w.signals history).stop = false
  accepts : ∀ history event, w.reply history (.handle event) = .accepted

theorem World.Unhindered.runs_of_signals (h : w.Unhindered) {signals : Signals}
    (hs : ∃ history, w.signals history = signals) : signals.stop = false := by
  obtain ⟨history, rfl⟩ := hs
  exact h.runs history

theorem World.Unhindered.cause_of_fault (h : w.Unhindered) {moments : List (Moment a)}
    {p q : Progress} (hl : w.Leads before p moments q) {raw : RawEvent} {error : IngestError}
    (hf : a.Fault moments raw error) :
    ∃ cause, a.decoder.decode raw = .error cause ∧ error = .decode raw.ledger cause := by
  cases hf with
  | @undecodable cause hcause => exact ⟨cause, hcause, rfl⟩
  | @refused _ event _ verdict _ _ hm hsettle =>
    obtain ⟨history, -, hverdict⟩ := hl.of_mem hm
    have hverdict : verdict = .accepted := hverdict.trans (h.accepts history event)
    rw [hverdict] at hsettle
    cases hsettle

end LedgerFeed
