import LedgerFeed.Proofs.Combined
import LedgerFeed.Proofs.Drawn

/-! Runs that are interrupted and resumed. What the handler of such a run accepted comes first of
what it accepts over the whole range; and where the run was stopped, the events that it accepted of
the ledgers below, followed by those of a new run from there on, are all of them. -/

namespace LedgerFeed

variable {e : Engine} {kind : RunKind} {a : Assignment} {w : World a} {history : List (Moment a)}
  {s : Source} {filters : List EventFilter} {overlap : Nat} {start stop ledger : LedgerNumber}

def RunRequest.over : RunKind → LedgerNumber → LedgerNumber → RunRequest
  | .live, start, stop => .live (some start) (some stop)
  | .archive, start, stop => .archive start stop
  | .combined, start, stop => .combined (some start) (some stop)

theorem Engine.ranges_over (e : Engine) (kind : RunKind) (hle : start ≤ stop) (hne : stop ≠ .last) :
    (e.assign (.over kind start stop)).Ranges start stop := by
  refine ⟨?_, ?_, hle, hne⟩ <;> cases kind <;> rfl

namespace Source

theorem ledger_of_mem_events {raw : RawEvent} (h : raw ∈ s.events ledger) :
    raw.ledger = ledger :=
  of_decide_eq_true (List.mem_filter.mp h).2

theorem ledger_of_mem_run {first count : Nat} {raw : RawEvent} (h : raw ∈ s.run first count)
    (hsize : first + count ≤ UInt32.size) :
    first ≤ raw.ledger.toNat ∧ raw.ledger.toNat < first + count := by
  obtain ⟨n, hn, hraw⟩ := List.mem_flatMap.mp h
  obtain ⟨hge, hlt⟩ := List.mem_range'_1.mp hn
  rw [ledger_of_mem_events hraw, UInt32.toNat_ofNat_of_lt' (Nat.lt_of_lt_of_le hlt hsize)]
  exact ⟨hge, hlt⟩

theorem lt_of_mem_below {raw : RawEvent} (hstart : start ≤ ledger)
    (h : raw ∈ s.below start ledger) : raw.ledger < ledger := by
  have hle := UInt32.le_iff_toNat_le.mp hstart
  have hsize := ledger.toNat_lt_size
  obtain ⟨-, hlt⟩ := ledger_of_mem_run h (by omega)
  exact UInt32.lt_iff_toNat_lt.mpr (by omega)

theorem ge_of_mem_between {raw : RawEvent} (hstop : ledger ≤ stop)
    (h : raw ∈ s.between ledger stop) : ledger ≤ raw.ledger := by
  have hle := UInt32.le_iff_toNat_le.mp hstop
  have hsize := stop.toNat_lt_size
  obtain ⟨hge, -⟩ := ledger_of_mem_run h (by omega)
  exact UInt32.le_iff_toNat_le.mpr hge

theorem filter_below_append (s : Source) (hstart : start ≤ ledger) {rest : List RawEvent}
    (hrest : ∀ raw ∈ rest, ledger ≤ raw.ledger) :
    (s.below start ledger ++ rest).filter (fun raw => raw.ledger < ledger) =
      s.below start ledger := by
  have hbelow : (s.below start ledger).filter (fun raw => raw.ledger < ledger) =
      s.below start ledger :=
    List.filter_eq_self.mpr fun raw hraw => decide_eq_true (lt_of_mem_below hstart hraw)
  have hnone : rest.filter (fun raw => raw.ledger < ledger) = [] :=
    List.filter_eq_nil_iff.mpr fun raw hraw => by simpa using hrest raw hraw
  rw [List.filter_append, hbelow, hnone, List.append_nil]

theorem filter_events (s : Source) (ledger : LedgerNumber) :
    (s.events ledger).filter (fun raw => raw.ledger = ledger) = s.events ledger := by
  rw [events, List.filter_filter]
  simp

theorem events_prefix_filter (s : Source) (hstart : start ≤ ledger) (hstop : ledger ≤ stop) :
    s.events ledger <+: (s.between start stop).filter fun raw => raw.ledger = ledger := by
  have hbelow : (s.below start ledger).filter (fun raw => raw.ledger = ledger) = [] := by
    refine List.filter_eq_nil_iff.mpr fun raw hraw heq => ?_
    exact UInt32.lt_irrefl _ (of_decide_eq_true heq ▸ lt_of_mem_below hstart hraw)
  rw [s.between_append hstart hstop, List.filter_append, hbelow, List.nil_append]
  exact s.filter_events ledger ▸ (s.events_prefix_between hstop).filter _

theorem Orderly.onwards {config : EngineConfig} (h : s.Orderly config overlap start stop)
    (hstart : start ≤ ledger) (hstop : ledger ≤ stop) : s.Orderly config overlap ledger stop where
  sorted l hl := h.sorted l (UInt32.le_trans hstart hl)
  distinct := by
    refine h.distinct.sublist (List.Sublist.map RawEvent.id ?_)
    rw [s.between_append hstart hstop]
    exact List.sublist_append_right ..
  overlap_lt := h.overlap_lt
  overlap_le := h.overlap_le

end Source

namespace World

/-- The sources hold a range for a run over it that nobody disturbs: its start lies in the window of
the live node, and the tip comes to its end; or an archive run finds all of it archived; or, for a
combined run, the tip lies beyond it, the archive holds what is below the window, and the live node
serves what is in it. -/
inductive Spans (w : World a) (s : Source) (filters : List EventFilter) (overlap : Nat)
    (start stop : LedgerNumber) : Prop
  | window {health : Nat → Health} (hkind : a.request.kind ≠ .archive)
      (hs : w.Serves s filters overlap start stop) (hh : w.Reports health)
      (holdest : (health 0).oldestAvailable a.config.retentionMargin ≤ start)
      (hlatest : start ≤ (health 0).latest)
      (htip : ∃ settled, ∀ n, settled ≤ n → stop ≤ (health n).latest)
  | archive {health : Health} (hrequest : a.request = .archive start stop)
      (hw : w.Undisturbed filters) (ha : w.Archives s start stop)
      (hr : w.reply [] (.health .archive) = .ok health) (hhealthy : health.healthy = true)
      (hlatest : start ≤ health.latest)
  | both {health : Nat → Health} {floor bound : LedgerNumber}
      (hrequest : a.request = .combined (some start) (some stop))
      (harchive : a.archive.isSome = true) (hs : w.Serves s filters overlap floor stop)
      (ha : w.Archives s start bound) (hh : w.Reports health)
      (hlatest : ∀ n, stop ≤ (health n).latest)
      (hbelow : ∀ n l, l ≤ stop → l < (health n).oldestAvailable a.config.retentionMargin →
        l ≤ bound)
      (hwithin : ∀ n l, start ≤ l → (health n).oldestAvailable a.config.retentionMargin ≤ l →
        floor ≤ l)

theorem Spans.ends (h : w.Spans s filters overlap start stop) (hr : a.Ranges start stop)
    (hs : s.Sound a.decoder start stop) :
    ∃ history delivered, w.Ends history ⟨.completed, delivered, stop + 1⟩ := by
  have hbegin := Assignment.Dealt.begin a filters .live s start
  obtain ⟨moments, sink, hl⟩ :
      ∃ moments sink, w.Leads [] a.begin moments (Assignment.completed sink stop.following) := by
    cases h with
    | window hkind hs hh holdest hlatest htip =>
      rw [s.below_self] at hbegin
      obtain ⟨moments, sink, hl, -⟩ := hs.beginAt_leads hh hr.stops hr.ne htip
        (UInt32.le_refl start) hr.le hs.distinct hbegin holdest hlatest
      refine ⟨moments, sink, ?_⟩
      have hstart := hr.starts
      unfold Assignment.begin
      cases hrequest : a.request with
      | archive => exact absurd (congrArg RunRequest.kind hrequest) hkind
      | live | combined =>
        rw [hrequest] at hstart
        obtain rfl := hstart
        exact hl
    | archive hrequest hw ha hr' hhealthy hlatest =>
      obtain ⟨moments, sink, hl, -⟩ := ha.begin_leads hw hs hrequest hr.le hr' hhealthy hlatest
      exact ⟨moments, sink, hl⟩
    | both hrequest harchive hs' ha hh hlatest hbelow hwithin =>
      obtain ⟨moments, sink, hl, -⟩ := hs'.cross_leads ha hs hh harchive hrequest hr.ne hlatest
        hbelow hwithin (UInt32.le_refl start) hr.le hbegin
      refine ⟨moments, sink, ?_⟩
      rw [Assignment.begin, hrequest]
      exact hl
  refine ⟨moments, sink.delivered, ?_⟩
  rw [← LedgerNumber.following_eq hr.ne]
  exact ends_of_leads hl

theorem Ends.finishes {delivered : UInt64} {next : LedgerNumber}
    (h : w.Ends history ⟨.completed, delivered, next⟩) (hr : a.Ranges start stop)
    (ho : s.Orderly a.config overlap start stop) (hd : w.Draws s filters overlap start stop) :
    a.Finishes s filters start stop history := by
  obtain ⟨sink, ⟨outcome, resume⟩, hm, hreaches, hsummary⟩ := h
  obtain rfl : outcome = .completed := congrArg Summary.outcome (Except.ok.inj hsummary)
  exact (hreaches.drawn hr ho hd hm).2

end World

namespace Assignment

theorem filter_accepted
    (hkeeps : ∀ raw event, a.decoder.decode raw = .ok event → event.ledger = raw.ledger)
    (hstart : start ≤ ledger) {rest : List RawEvent} (hrest : ∀ raw ∈ rest, ledger ≤ raw.ledger)
    (h : accepted history = a.decoder.selected filters (s.below start ledger ++ rest)) :
    (accepted history).filter (fun event => event.ledger < ledger) =
      a.decoder.selected filters (s.below start ledger) := by
  have hfilter := @Decoder.filter_selected a.decoder filters hkeeps fun l => decide (l < ledger)
  rw [h, hfilter, s.filter_below_append hstart hrest]

/-- A run that was stopped has accepted all of what is due of the ledgers below, and the first of
the ledger that it was stopped at. -/
theorem Halts.split {full : List (Moment a)}
    (hkeeps : ∀ raw event, a.decoder.decode raw = .ok event → event.ledger = raw.ledger)
    (h : a.Halts s filters start stop history ledger)
    (hfull : a.Finishes s filters start stop full) :
    (LedgerFeed.accepted history).filter (fun event => event.ledger < ledger) =
        a.decoder.selected filters (s.below start ledger) ∧
      ∃ part, part <+: (LedgerFeed.accepted full).filter (fun event => event.ledger = ledger) ∧
        LedgerFeed.accepted history =
          (LedgerFeed.accepted full).filter (fun event => event.ledger < ledger) ++ part := by
  obtain ⟨hge, hle, part, hpart, haccepted⟩ := h
  have hall := hfull.accepted
  rw [s.between_append hge hle] at hall
  have hbelow := filter_accepted hkeeps hge (fun raw => Source.ge_of_mem_between hle) hall
  have hkept := filter_accepted hkeeps hge
    (fun raw hraw => UInt32.le_of_eq (Source.ledger_of_mem_events (hpart.subset hraw)).symm)
    haccepted
  refine ⟨hkept, a.decoder.selected filters part, ?_, ?_⟩
  · have hfilter := @Decoder.filter_selected a.decoder filters hkeeps
      (fun l => decide (l = ledger)) (s.between start stop)
    rw [hfull.accepted, hfilter]
    exact (hpart.trans (s.events_prefix_filter hge hle)).filterMap _
  · rw [hbelow, haccepted, Decoder.selected_append]

end Assignment

/-- A run over sources that do not change may be stopped, its handler may fail and so may its nodes:
what was accepted comes first of what a run that completes accepts. Where it was stopped, it has
accepted all of that of the ledgers below, and the first of the ledger itself; and a new run of its
kind from that ledger on accepts the rest, if the sources still hold it. -/
theorem interrupted_loses_nothing
    (hkeeps : ∀ raw event, e.decoder.decode raw = .ok event → event.ledger = raw.ledger)
    (hle : start ≤ stop) (hne : stop ≠ .last) (ho : s.Orderly e.config overlap start stop)
    {u w : World (e.assign (.over kind start stop))}
    {full history : List (Moment (e.assign (.over kind start stop)))} {delivered : UInt64}
    {next : LedgerNumber} {p : Progress} (hu : u.Draws s filters overlap start stop)
    (hfull : u.Ends full ⟨.completed, delivered, next⟩)
    (hw : w.Draws s filters overlap start stop) (hm : w.Makes history)
    (h : (e.assign (.over kind start stop)).Reaches history p) :
    accepted history <+: accepted full ∧
    ∀ sink resume, p = Assignment.stopped sink resume → start ≤ resume ∧ resume ≤ stop ∧
      (∃ part, part <+: (accepted full).filter (fun event => event.ledger = resume) ∧
        accepted history =
          (accepted full).filter (fun event => event.ledger < resume) ++ part) ∧
      ∀ v : World (e.assign (.over kind resume stop)), v.Draws s filters overlap resume stop →
        (∀ fresh delivered next, v.Ends fresh ⟨.completed, delivered, next⟩ →
          (accepted history).filter (fun event => event.ledger < resume) ++ accepted fresh =
            accepted full) ∧
        (v.Spans s filters overlap resume stop →
          ∃ fresh delivered, v.Ends fresh ⟨.completed, delivered, stop + 1⟩) := by
  have hr := e.ranges_over kind hle hne
  have hfinishes := hfull.finishes hr ho hu
  obtain ⟨hp, hdrawn⟩ := h.drawn hr ho hw hm
  refine ⟨?_, ?_⟩
  · obtain ⟨done, hdone, haccepted⟩ := hdrawn.kept hp hr
    rw [haccepted, hfinishes.accepted]
    exact hdone.filterMap _
  rintro sink resume rfl
  have hhalts : (e.assign (.over kind start stop)).Halts s filters start stop history resume :=
    hdrawn
  obtain ⟨hkept, hsplit⟩ := hhalts.split hkeeps hfinishes
  have hr' := e.ranges_over kind hhalts.le hne
  have ho' := ho.onwards hhalts.ge hhalts.le
  have hall := s.between_append hhalts.ge hhalts.le
  refine ⟨hhalts.ge, hhalts.le, hsplit, fun v hv =>
    ⟨fun fresh delivered next hfresh => ?_, fun hspans =>
      hspans.ends hr' ⟨fun raw hraw => hfinishes.decodes raw ?_, ho'.distinct⟩⟩⟩
  · rw [hkept, (hfresh.finishes hr' ho' hv).accepted, hfinishes.accepted, hall,
      Decoder.selected_append]
    rfl
  · rw [hall]
    exact List.mem_append_right _ hraw

open Rehearsal

theorem Rehearsal.Node.draws {live archive : Node}
    (hsignals : ∀ history, (w.signals history).filters = filters)
    (hreply : w.reply = (live.world a archive filters).reply)
    (hlt : live.overlap < a.config.pageSize.toNat)
    (hread : ∀ ledger ∈ archive.ledgers,
      a.decoder.ledgerEvents ledger = .ok (live.source.events ledger.sequence)) :
    w.Draws live.source filters live.overlap start stop where
  keeps := hsignals
  opens history ledger page _ _ h := by
    rw [hreply] at h
    obtain rfl := Except.ok.inj h
    have hplace : position (.ofLedger ledger filters a.config.pageSize) = (ledger, 0) := rfl
    exact live.gives_eventsPage_after (healthAsked history) hlt hplace
  continues history ledger cursor place page _ _ hplace h := by
    rw [hreply] at h
    obtain rfl := Except.ok.inj h
    have hplace := position_of_place hplace (.ofLedger ledger filters a.config.pageSize)
    exact live.gives_eventsPage_after (healthAsked history) hlt hplace
  ledgers history request page h ledger hledger _ _ := by
    rw [hreply] at h
    obtain rfl := Except.ok.inj h
    exact hread ledger (((List.take_sublist ..).trans (List.dropWhile_sublist _)).subset hledger)

def stockedNode : Node :=
  { risingNode with
    windows := [⟨5, 9, true⟩]
    events := [sampleEvent 5 "a", sampleEvent 5 "b", sampleEvent 7 "c", sampleEvent 7 "d"]
    ledgers := [⟨5, "", "", "", [sampleEvent 5 "a", sampleEvent 5 "b"]⟩, ⟨6, "", "", "", []⟩,
      ⟨7, "", "", "", [sampleEvent 7 "c", sampleEvent 7 "d"]⟩] }

def stockedRun (start : LedgerNumber) : Assignment :=
  { movingEngine with config := EngineConfig.default }.assign (.over .archive start 7)

def cutShort : World (stockedRun 5) :=
  { stockedNode.world (stockedRun 5) stockedNode [] with
    signals := fun history => ⟨decide (2 ≤ (received history).length), []⟩ }

theorem cutShort_leads :
    ∃ moments sink, cutShort.Leads [] (stockedRun 5).begin moments (Assignment.stopped sink 7) :=
  ⟨_, _, .step (.step (.step (.step (.step (.refl ..)))))⟩

theorem stockedNode_read : ∀ ledger ∈ stockedNode.ledgers,
    Decoder.standard.ledgerEvents ledger = .ok (stockedNode.source.events ledger.sequence) := by
  simp only [stockedNode, List.forall_mem_cons]
  exact ⟨rfl, rfl, rfl, by simp⟩

theorem stockedNode_sound : stockedNode.source.Sound .standard 5 7 where
  decodes := by
    have hbetween : stockedNode.source.between 5 7 = stockedNode.events := by decide
    rw [hbetween]
    simp only [stockedNode, List.forall_mem_cons]
    exact ⟨⟨_, rfl⟩, ⟨_, rfl⟩, ⟨_, rfl⟩, ⟨_, rfl⟩, by simp⟩
  distinct := by decide

theorem stockedNode_orderly : stockedNode.source.Orderly EngineConfig.default 1 5 7 where
  sorted ledger _ _ := stockedNode.sorted_eventsOf ledger
  distinct := stockedNode_sound.distinct
  overlap_lt := by decide
  overlap_le := by decide

theorem stockedNode_spans (hstart : 5 ≤ start) (hstop : start ≤ 7) :
    (stockedNode.world (stockedRun start) stockedNode []).Spans stockedNode.source [] 1 start
      7 := by
  have hstored : ∀ n : LedgerNumber, start ≤ n → n ≤ 7 →
      ∃ ledger ∈ stockedNode.ledgers, ledger.sequence = n := by
    intro n hn hn'
    have hcases : n = 5 ∨ n = 6 ∨ n = 7 := by grind
    rcases hcases with rfl | rfl | rfl <;> decide
  have hsize : 0 < EngineConfig.default.pageSize := by decide
  have harchives := @Node.world_archives (stockedRun start) stockedNode stockedNode [] start 7
    stockedNode.source hsize (by decide) hstored stockedNode_read
  refine .archive rfl Node.world_undisturbed harchives rfl rfl ?_
  exact UInt32.le_trans hstop (by decide)

theorem cutShort_loses_nothing :
    ∃ full history fresh delivered delivered' sink,
      (stockedNode.world (stockedRun 5) stockedNode []).Ends full ⟨.completed, delivered, 8⟩ ∧
      cutShort.Makes history ∧
      (stockedRun 5).Reaches history (Assignment.stopped sink 7) ∧
      (stockedNode.world (stockedRun 7) stockedNode []).Ends fresh ⟨.completed, delivered', 8⟩ ∧
      accepted history <+: accepted full ∧
      (accepted history).filter (fun event => event.ledger < 7) ++ accepted fresh =
        accepted full := by
  have hdraws {start : LedgerNumber} (w : World (stockedRun start))
      (hsignals : ∀ history, (w.signals history).filters = [])
      (hreply : w.reply = (stockedNode.world (stockedRun start) stockedNode []).reply) :
      w.Draws stockedNode.source [] 1 start 7 :=
    Node.draws hsignals hreply stockedNode_orderly.overlap_lt stockedNode_read
  obtain ⟨full, delivered, hfull⟩ := (stockedNode_spans (by decide) (by decide)).ends
    (Engine.ranges_over _ .archive (by decide) (by decide)) stockedNode_sound
  obtain ⟨history, sink, hl⟩ := cutShort_leads
  have hmakes : cutShort.Makes history := by simpa using hl.makes trivial
  have hreaches : (stockedRun 5).Reaches history (Assignment.stopped sink 7) := by
    simpa using hl.reaches .begin
  obtain ⟨hfirst, hrest⟩ := interrupted_loses_nothing (fun _ _ => Decoder.ledger_of_standard)
    (by decide) (by decide) stockedNode_orderly (hdraws _ (fun _ => rfl) rfl) hfull
    (hdraws cutShort (fun _ => rfl) rfl) hmakes hreaches
  obtain ⟨-, -, -, hresumed⟩ := hrest sink 7 rfl
  obtain ⟨hall, hends⟩ := hresumed (stockedNode.world (stockedRun 7) stockedNode [])
    (hdraws _ (fun _ => rfl) rfl)
  obtain ⟨fresh, delivered', hfresh⟩ := hends (stockedNode_spans (by decide) (by decide))
  exact ⟨full, history, fresh, delivered, delivered', sink, hfull, hmakes, hreaches, hfresh,
    hfirst, hall fresh delivered' 8 hfresh⟩

end LedgerFeed
