import LedgerFeed.Proofs.Poll
import LedgerFeed.Proofs.Scripted

/-! Following the tip. While the tip lies below the ledger due next, the run waits and asks again; a
tip that settles above the range lets it poll every ledger, one after the other. -/

namespace LedgerFeed

variable {a : Assignment} {w : World a} {filters : List EventFilter} {health : Nat → Health}
  {s : Source} {overlap : Nat} {start stop ledger : LedgerNumber} {older : List RawEvent}

theorem below_following (s : Source) (h : start ≤ ledger) (hne : ledger ≠ .last) :
    s.below start ledger.following = s.below start ledger ++ s.events ledger := by
  rw [← Source.run_one, s.below_append h, Source.below, LedgerNumber.toNat_following_of_ne hne]

theorem between_eq (s : Source) (h : start ≤ stop) :
    s.between start stop = s.below start stop ++ s.events stop := by
  rw [← Source.run_one, s.below_append h, Source.between]

theorem between_self (s : Source) (ledger : LedgerNumber) :
    s.between ledger ledger = s.events ledger := by
  rw [between_eq s (UInt32.le_refl ledger), s.below_self, List.nil_append]

theorem between_following (s : Source) (h : ledger < stop) :
    s.between ledger stop = s.events ledger ++ s.between ledger.following stop := by
  have hne := LedgerNumber.ne_last_of_lt h
  have hstop : ledger.following ≤ stop := by
    have hnext := LedgerNumber.toNat_following_of_ne hne
    have hlt := UInt32.lt_iff_toNat_lt.mp h
    exact UInt32.le_iff_toNat_le.mpr (by omega)
  rw [s.between_append (LedgerNumber.le_following ledger) hstop,
    below_following s (UInt32.le_refl ledger) hne, s.below_self, List.nil_append]

namespace World

theorem Reports.leads_health (h : w.Reports health) {before moments : List (Moment a)} {sink : Sink}
    {use : HealthUse} {go : Health → Progress} {p : Progress}
    (hgo : ∀ reply, a.resume (w.signals before) sink (.liveHealth use) reply =
      Assignment.withHealth sink a.live go reply)
    (hl : w.Leads (w.moment before (.liveHealth use) :: before) (go (health (healthAsked before)))
      moments p) :
    w.Leads before (.waiting sink (.liveHealth use))
      (moments ++ [w.moment before (.liveHealth use)]) p := by
  have hreply : w.reply before ((Pending.liveHealth use).question a) =
      .ok (health (healthAsked before)) := h.reply before
  refine .step ?_
  rw [hgo, hreply, Assignment.withHealth, if_pos (h.healthy _)]
  exact hl

theorem Reports.follow_leads (h : w.Reports health) (hw : w.Undisturbed filters)
    (hrequest : a.request.stop? = some stop) {settled : Nat}
    (htip : ∀ n, settled ≤ n → stop ≤ (health n).latest) (hstop : ledger ≤ stop)
    (before : List (Moment a)) (sink : Sink) (latest : LedgerNumber) :
    ∃ moments latest', w.Leads before (a.follow ⟨false, filters⟩ sink ledger latest) moments
      (a.beginPoll ⟨false, filters⟩ sink ledger latest') ∧ received moments = [] := by
  -- each answer below the ledger brings the run closer to those that are not
  induction hn : settled - healthAsked before using Nat.strongRecOn generalizing before latest with
  | ind n ih =>
  have hpast : a.pastStop ledger = false := by
    rw [pastStop_eq hrequest]
    simpa using hstop
  rw [Assignment.follow, hpast, if_neg (by simp), if_neg (by simp)]
  split
  · have hgo : ∀ reply, a.resume (w.signals before) sink (.liveHealth (.following ledger)) reply =
        Assignment.withHealth sink a.live
          (fun health => a.followTo (w.signals before) sink ledger health.latest) reply :=
      fun _ => rfl
    let m := w.moment before (.liveHealth (.following ledger))
    by_cases hlt : (health (healthAsked before)).latest < ledger
    · obtain ⟨pause, hl, hidle⟩ := hw.wait_leads (m :: before) sink a.config.liveWait
        (.atTip ledger (health (healthAsked before)).latest)
      have hasked : healthAsked (pause ++ (m :: before)) = healthAsked before + 1 := by
        rw [healthAsked_append, hidle.healthAsked]
        simp [healthAsked, m, World.moment, Moment.question, Pending.question]
      have hbelow : healthAsked before < settled := by
        refine Nat.lt_of_not_le fun hle => ?_
        have := UInt32.lt_iff_toNat_lt.mp hlt
        have := UInt32.le_iff_toNat_le.mp (htip _ hle)
        have := UInt32.le_iff_toNat_le.mp hstop
        omega
      obtain ⟨later, latest', hl', hquiet⟩ := ih (settled - (healthAsked before + 1)) (by omega)
        (pause ++ (m :: before)) (health (healthAsked before)).latest (by rw [hasked])
      refine ⟨later ++ pause ++ [m], latest', h.leads_health hgo ?_, ?_⟩
      · rw [hw.signals, Assignment.followTo, if_pos hlt]
        exact hl.trans hl'
      · rw [received_append, received_append, hquiet, hidle.received]
        rfl
    · refine ⟨[m], (health (healthAsked before)).latest, ?_, rfl⟩
      apply @Reports.leads_health a w health h before [] sink _ _ _ hgo
      rw [hw.signals, Assignment.followTo, if_neg hlt]
      exact .refl ..
  · exact ⟨[], latest, .refl .., rfl⟩

theorem Serves.beginPoll_leads (h : w.Serves s filters overlap start stop)
    (hrequest : a.request.stop? = some stop) (hne : stop ≠ .last) (hstart : start ≤ ledger)
    (hstop : ledger ≤ stop) {before : List (Moment a)} {sink : Sink} (latest : LedgerNumber)
    (hn : ((older ++ s.events ledger).map RawEvent.id).Nodup)
    (hdealt : a.Dealt filters before sink older) :
    ∃ moments sink' p,
      w.Leads before (a.beginPoll ⟨false, filters⟩ sink ledger latest) moments p ∧
      a.Passed filters stop ledger sink' p ∧
      a.Dealt filters (moments ++ before) sink' (older ++ s.events ledger) := by
  refine h.requestPage_leads hrequest hne hstart hstop before (sink.measure .poll)
    ⟨ledger, latest, .ofLedger ledger filters a.config.pageSize⟩ rfl (fun _ => rfl)
    (fun history => h.opens history ledger hstart hstop) (Nat.le_refl 0) (Nat.zero_le _) hn ?_
  have hnone : s.part ledger 0 0 = [] := rfl
  rw [hnone, List.append_nil]
  exact hdealt.quiet [] rfl rfl rfl

theorem Serves.live_leads (h : w.Serves s filters overlap start stop) (hh : w.Reports health)
    (hrequest : a.request.stop? = some stop) (hne : stop ≠ .last) {settled : Nat}
    (htip : ∀ n, settled ≤ n → stop ≤ (health n).latest) (hstart : start ≤ ledger)
    (hstop : ledger ≤ stop) {before : List (Moment a)} {sink : Sink} (latest : LedgerNumber)
    (hn : ((older ++ s.between ledger stop).map RawEvent.id).Nodup)
    (hdealt : a.Dealt filters before sink older) :
    ∃ moments sink',
      w.Leads before (a.follow ⟨false, filters⟩ sink ledger latest) moments
        (Assignment.completed sink' stop.following) ∧
      a.Dealt filters (moments ++ before) sink' (older ++ s.between ledger stop) := by
  induction hleft : stop.toNat - ledger.toNat using Nat.strongRecOn
    generalizing before sink latest ledger older with
  | ind n ih =>
  have hn' : ((older ++ s.events ledger).map RawEvent.id).Nodup :=
    hn.sublist (((s.events_prefix_between hstop).sublist.append_left older).map RawEvent.id)
  obtain ⟨wait, latest', hl, hquiet⟩ :=
    hh.follow_leads h.toUndisturbed hrequest htip hstop before sink latest
  obtain ⟨moments, sink', p, hl', hp, hdealt'⟩ := h.beginPoll_leads hrequest hne hstart hstop
    latest' hn' (hdealt.quiet _ hquiet rfl rfl)
  cases hp with
  | done heq =>
    subst heq
    refine ⟨moments ++ wait, sink', hl.trans hl', ?_⟩
    rw [between_self, List.append_assoc]
    exact hdealt'
  | onward hlt latest'' =>
    have hlt' := UInt32.lt_iff_toNat_lt.mp hlt
    have hnext := LedgerNumber.toNat_following_of_ne (LedgerNumber.ne_last_of_lt hlt)
    rw [between_following s hlt, ← List.append_assoc] at hn
    obtain ⟨later, sink'', hl'', hdealt''⟩ := ih (stop.toNat - (ledger.toNat + 1)) (by omega)
      (UInt32.le_trans hstart (UInt32.le_iff_toNat_le.mpr (by omega)))
      (UInt32.le_iff_toNat_le.mpr (by omega)) latest'' hn hdealt' (by omega)
    refine ⟨later ++ (moments ++ wait), sink'', hl.trans hl' |>.trans (by simpa using hl''), ?_⟩
    rw [between_following s hlt]
    simpa using hdealt''

theorem Serves.beginAt_leads (h : w.Serves s filters overlap start stop) (hh : w.Reports health)
    (hrequest : a.request.stop? = some stop) (hne : stop ≠ .last)
    (htip : ∃ settled, ∀ n, settled ≤ n → stop ≤ (health n).latest) (hstart : start ≤ ledger)
    (hstop : ledger ≤ stop) {before : List (Moment a)} {sink : Sink}
    (hn : ((older ++ s.between ledger stop).map RawEvent.id).Nodup)
    (hdealt : a.Dealt filters before sink older)
    (holdest : (health (healthAsked before)).oldestAvailable a.config.retentionMargin ≤ ledger)
    (hlatest : ledger ≤ (health (healthAsked before)).latest) :
    ∃ moments sink',
      w.Leads before (a.choose sink (some ledger)) moments
        (Assignment.completed sink' stop.following) ∧
      a.Dealt filters (moments ++ before) sink' (older ++ s.between ledger stop) := by
  obtain ⟨settled, htip⟩ := htip
  let m := w.moment before (.liveHealth (.choosing (some ledger)))
  have hpast : a.pastStop ledger = false := by
    rw [pastStop_eq hrequest]
    simpa using hstop
  have hm : a.Dealt filters (m :: before) (sink.withFeed .live) older :=
    hdealt.quiet [m] rfl rfl rfl
  obtain ⟨moments, sink', hl, hdealt'⟩ :=
    h.live_leads hh hrequest hne htip hstart hstop (health (healthAsked before)).latest hn hm
  refine ⟨moments ++ [m], sink', ?_, by simpa using hdealt'⟩
  rw [Assignment.choose, hpast, if_neg (by simp)]
  refine hh.leads_health (fun _ => rfl) ?_
  rw [h.signals, Assignment.beginAt]
  simpa [Option.isNone_some, UInt32.not_lt.mpr hlatest, holdest] using hl

theorem Serves.begin_leads (h : w.Serves s filters overlap start stop) (hh : w.Reports health)
    (hrequest : a.request = .live (some start) (some stop)) (hle : start ≤ stop)
    (hne : stop ≠ .last)
    (holdest : (health 0).oldestAvailable a.config.retentionMargin ≤ start)
    (hlatest : start ≤ (health 0).latest)
    (htip : ∃ settled, ∀ n, settled ≤ n → stop ≤ (health n).latest) :
    ∃ moments sink, w.Leads [] a.begin moments (Assignment.completed sink stop.following) ∧
      a.Dealt filters moments sink (s.between start stop) := by
  have hstop : a.request.stop? = some stop := by
    rw [hrequest]
    rfl
  have hbegin := Assignment.Dealt.begin a filters .live s start
  rw [s.below_self] at hbegin
  obtain ⟨moments, sink, hl, hdealt⟩ := h.beginAt_leads hh hstop hne htip (UInt32.le_refl start)
    hle h.distinct hbegin holdest hlatest
  rw [List.append_nil] at hdealt
  refine ⟨moments, sink, ?_, hdealt⟩
  rw [Assignment.begin, hrequest]
  exact hl

end World

theorem Assignment.Dealt.ends {moments : List (Moment a)} {sink : Sink} {raws : List RawEvent}
    (h : a.Dealt filters moments sink raws) (hne : stop ≠ .last)
    (hl : w.Leads [] a.begin moments (completed sink stop.following)) :
    ∃ history,
      w.Ends history ⟨.completed, .ofNat (a.decoder.selected filters raws).length, stop + 1⟩ ∧
      LedgerFeed.received history = a.decoder.selected filters raws := by
  have hends := World.ends_of_leads hl
  rw [h.delivered, LedgerNumber.following_eq hne] at hends
  exact ⟨moments, hends, h.received⟩

/-- A live run over a range whose start is retained delivers the events of every ledger of the range
that the filters let pass, each once and in order, however the tip moves until it settles above the
range. -/
theorem live_delivers_exactly_once (hrequest : a.request = .live (some start) (some stop))
    (hle : start ≤ stop) (hne : stop ≠ .last) (hs : w.Serves s filters overlap start stop)
    (hh : w.Reports health)
    (holdest : (health 0).oldestAvailable a.config.retentionMargin ≤ start)
    (hlatest : start ≤ (health 0).latest)
    (htip : ∃ settled, ∀ n, settled ≤ n → stop ≤ (health n).latest) :
    ∃ history,
      w.Ends history ⟨.completed, .ofNat (a.decoder.selected filters (s.between start stop)).length,
        stop + 1⟩ ∧
      received history = a.decoder.selected filters (s.between start stop) := by
  obtain ⟨moments, sink, hl, hdealt⟩ :=
    hs.begin_leads hh hrequest hle hne holdest hlatest htip
  exact hdealt.ends hne hl

open Rehearsal

def sampleEvent (ledger : LedgerNumber) (id : String) : RawEvent :=
  ⟨"contract", ledger, "", "C", id, [], "", true, ""⟩

def risingNode : Node where
  endpoint := "live"
  windows := [⟨3, 5, true⟩, ⟨5, 9, true⟩]
  fills := []
  events := [sampleEvent 5 "a", sampleEvent 5 "b", sampleEvent 5 "c", sampleEvent 7 "d"]
  ledgers := []
  overlap := 1
  onHealth := []
  onEvents := []
  onLedgers := []
  calls := 0

def risingRun : Assignment where
  request := .live (some 5) (some 7)
  config := { EngineConfig.default with pageSize := 2, retentionMargin := 1 }
  decoder := .standard
  live := "live"
  archive := none

theorem between_risingNode : risingNode.source.between 5 7 = risingNode.events := by decide

theorem risingNode_sound : risingNode.source.Sound .standard 5 7 where
  decodes := by
    rw [between_risingNode]
    simp only [risingNode, List.forall_mem_cons]
    exact ⟨⟨_, rfl⟩, ⟨_, rfl⟩, ⟨_, rfl⟩, ⟨_, rfl⟩, by simp⟩
  distinct := by
    rw [between_risingNode]
    decide

theorem risingNode_delivers_exactly_once :
    ∃ history, (Node.world risingRun risingNode risingNode []).Ends history ⟨.completed, 4, 8⟩ ∧
      received history = Decoder.standard.selected [] risingNode.events := by
  have hserves : (Node.world risingRun risingNode risingNode []).Serves risingNode.source []
      1 5 7 :=
    Node.world_serves risingNode_sound (by decide) (by decide)
  have hreports := @Node.world_reports risingRun risingNode risingNode [] fun asked => by
    rw [Node.after_eq]
    rcases asked with _ | asked <;> simp [risingNode, Node.window]
  have htip : ∀ n, 1 ≤ n → (7 : LedgerNumber) ≤ (risingNode.after n).window.health.latest := by
    intro n hn
    rw [Node.after_eq, Nat.min_eq_right (Nat.le_trans (by decide) hn)]
    decide
  have h := live_delivers_exactly_once rfl (by decide) (by decide) hserves hreports (by decide)
    (by decide) ⟨1, htip⟩
  rw [between_risingNode] at h
  exact h

end LedgerFeed
