import LedgerFeed.Proofs.Archive
import LedgerFeed.Proofs.Live

/-! Combined runs. Below the window of the live node a run backfills up to the window, or to the end
of its range, and chooses again; whatever the window does meanwhile, nothing is lost between the two
sources and nothing comes twice. -/

namespace LedgerFeed

variable {a : Assignment} {w : World a} {filters : List EventFilter} {health : Nat → Health}
  {s : Source} {overlap : Nat} {start stop ledger floor bound : LedgerNumber}

theorem Source.Sound.upto {decoder : Decoder} (h : s.Sound decoder start stop)
    (hstart : start ≤ bound) (hstop : bound ≤ stop) : s.Sound decoder start bound := by
  have hstart := UInt32.le_iff_toNat_le.mp hstart
  have hstop := UInt32.le_iff_toNat_le.mp hstop
  have hsub : (s.between start bound).Sublist (s.between start stop) := by
    have hrun : start.toNat + (bound.toNat + 1 - start.toNat) ≤ stop.toNat + 1 := by omega
    have hsub := s.below_append_sublist (UInt32.le_refl start) hrun
    rwa [s.below_self, List.nil_append] at hsub
  exact ⟨fun raw hraw => h.decodes raw (hsub.subset hraw), h.distinct.sublist (hsub.map _)⟩

namespace World

theorem Archives.upto (h : w.Archives s start stop) (hstop : bound ≤ stop) :
    w.Archives s start bound where
  gives history next target hstart hle hbound := by
    obtain ⟨page, hr, hne, hpage, hgives⟩ :=
      h.gives history next target hstart hle (UInt32.le_trans hbound hstop)
    exact ⟨page, hr, hne, hpage, fun ledger hledger hle =>
      hgives ledger hledger (UInt32.le_trans hle hstop)⟩

theorem Archives.bridge_leads (ha : w.Archives s start bound) (hw : w.Undisturbed filters)
    (hs : s.Sound a.decoder start stop) (hh : w.Reports health)
    (harchive : a.archive.isSome = true)
    (hrequest : a.request = .combined (some start) (some stop)) (hstart : start ≤ ledger)
    (hstop : ledger ≤ stop) {before : List (Moment a)} {sink : Sink}
    (hdealt : a.Dealt filters before sink (s.below start ledger))
    (holdest : ledger < (health (healthAsked before)).oldestAvailable a.config.retentionMargin)
    (hlatest : ledger ≤ (health (healthAsked before)).latest)
    (hbelow : ∀ l, l ≤ stop →
      l < (health (healthAsked before)).oldestAvailable a.config.retentionMargin → l ≤ bound) :
    ∃ moments sink' target, ledger ≤ target ∧ target ≤ stop ∧
      w.Leads before (a.choose sink (some ledger)) moments
        (a.choose sink' (some target.following)) ∧
      a.Dealt filters (moments ++ before) sink' (s.between start target) := by
  let m := w.moment before (.liveHealth (.choosing (some ledger)))
  let oldest := (health (healthAsked before)).oldestAvailable a.config.retentionMargin
  have hrequest' : a.request.stop? = some stop := by
    rw [hrequest]
    rfl
  have hpast : a.pastStop ledger = false := by
    rw [pastStop_eq hrequest']
    simpa using hstop
  have hm : a.Dealt filters (m :: before) (sink.withFeed .backfill) (s.below start ledger) :=
    hdealt.quiet [m] rfl rfl rfl
  have hle : ledger ≤ min (oldest - 1) stop :=
    Std.le_min_iff.mpr ⟨LedgerNumber.le_sub_one holdest, hstop⟩
  have hmin : min (oldest - 1) stop ≤ stop := Std.min_le_right
  have hbound : min (oldest - 1) stop ≤ bound :=
    hbelow _ hmin (UInt32.lt_of_le_of_lt Std.min_le_left (LedgerNumber.sub_one_lt holdest))
  obtain ⟨moments, sink', hl, hdealt'⟩ := (ha.upto hbound).backfill_leads hw
    (hs.upto (UInt32.le_trans hstart hle) hmin) hstart hle (UInt32.le_refl _) hm
  refine ⟨moments ++ [m], sink', _, hle, hmin, ?_, by simpa using hdealt'⟩
  rw [Assignment.choose, hpast, if_neg (by simp)]
  refine hh.leads_health (fun _ => rfl) ?_
  have hend : a.endBackfill sink' (min (oldest - 1) stop) =
      a.choose sink' (some (min (oldest - 1) stop).following) := by
    rw [Assignment.endBackfill, hrequest]
  obtain ⟨endpoint, hendpoint⟩ := Option.isSome_iff_exists.mp harchive
  rw [hend] at hl
  rw [hw.signals, Assignment.beginAt, hendpoint, hrequest]
  simpa [Option.isNone_some, UInt32.not_lt.mpr hlatest, UInt32.not_le.mpr holdest,
    RunRequest.stop?] using hl

theorem Serves.cross_leads (h : w.Serves s filters overlap floor stop)
    (ha : w.Archives s start bound) (hs : s.Sound a.decoder start stop) (hh : w.Reports health)
    (harchive : a.archive.isSome = true)
    (hrequest : a.request = .combined (some start) (some stop)) (hne : stop ≠ .last)
    (hlatest : ∀ n, stop ≤ (health n).latest)
    (hbelow : ∀ n l, l ≤ stop → l < (health n).oldestAvailable a.config.retentionMargin → l ≤ bound)
    (hwithin : ∀ n l, start ≤ l → (health n).oldestAvailable a.config.retentionMargin ≤ l →
      floor ≤ l)
    (hstart : start ≤ ledger) (hstop : ledger ≤ stop) {before : List (Moment a)} {sink : Sink}
    (hdealt : a.Dealt filters before sink (s.below start ledger)) :
    ∃ moments sink',
      w.Leads before (a.choose sink (some ledger)) moments
        (Assignment.completed sink' stop.following) ∧
      a.Dealt filters (moments ++ before) sink' (s.between start stop) := by
  -- every backfill takes at least the ledger that it was begun for
  induction hn : stop.toNat - ledger.toNat using Nat.strongRecOn
    generalizing before sink ledger with
  | ind n ih =>
  have hrequest' : a.request.stop? = some stop := by
    rw [hrequest]
    rfl
  have htip := UInt32.le_trans hstop (hlatest (healthAsked before))
  by_cases holdest :
      (health (healthAsked before)).oldestAvailable a.config.retentionMargin ≤ ledger
  · have hdistinct := hs.distinct
    rw [s.between_append hstart hstop] at hdistinct ⊢
    exact h.beginAt_leads hh hrequest' hne ⟨0, fun n _ => hlatest n⟩
      (hwithin _ ledger hstart holdest) hstop hdistinct hdealt holdest htip
  · -- the window may have moved on meanwhile, so that another backfill follows
    obtain ⟨moments, sink', target, hle, hmax, hl, hdealt'⟩ := ha.bridge_leads h.toUndisturbed hs
      hh harchive hrequest hstart hstop hdealt (UInt32.not_le.mp holdest) htip (hbelow _)
    by_cases hlt : target < stop
    · have hlt' := UInt32.lt_iff_toNat_lt.mp hlt
      have hle' := UInt32.le_iff_toNat_le.mp hle
      have hnext := LedgerNumber.toNat_following_of_ne (LedgerNumber.ne_last_of_lt hlt)
      have hstart' := UInt32.le_trans hstart hle
      rw [between_eq s hstart', ← below_following s hstart' (LedgerNumber.ne_last_of_lt hlt)]
        at hdealt'
      obtain ⟨later, sink'', hl', hdealt''⟩ := ih (stop.toNat - (target.toNat + 1)) (by omega)
        (UInt32.le_trans hstart' (UInt32.le_iff_toNat_le.mpr (by omega)))
        (UInt32.le_iff_toNat_le.mpr (by omega)) hdealt' (by omega)
      exact ⟨later ++ moments, sink'', hl.trans hl', by simpa using hdealt''⟩
    · obtain rfl := UInt32.le_antisymm hmax (UInt32.not_lt.mp hlt)
      have hpast : a.pastStop target.following = true := by
        rw [pastStop_eq hrequest', decide_eq_true_iff, LedgerNumber.following_eq hne,
          UInt32.lt_iff_toNat_lt, LedgerNumber.toNat_add_one hne]
        exact Nat.lt_succ_self _
      have hend : a.choose sink' (some target.following) =
          Assignment.completed sink' target.following := by
        rw [Assignment.choose, if_pos hpast]
      exact ⟨moments, sink', hend ▸ hl, hdealt'⟩

/-- Where both sources hold all of the range, it does not matter where the window lies. -/
theorem Serves.choose_leads (h : w.Serves s filters overlap start stop) (hh : w.Reports health)
    (ha : w.Archives s start stop) (harchive : a.archive.isSome = true)
    (hrequest : a.request = .combined (some start) (some stop)) (hne : stop ≠ .last)
    (hlatest : ∀ n, stop ≤ (health n).latest) (hstart : start ≤ ledger) (hstop : ledger ≤ stop)
    {before : List (Moment a)} {sink : Sink}
    (hdealt : a.Dealt filters before sink (s.below start ledger)) :
    ∃ moments sink',
      w.Leads before (a.choose sink (some ledger)) moments
        (Assignment.completed sink' stop.following) ∧
      a.Dealt filters (moments ++ before) sink' (s.between start stop) :=
  h.cross_leads ha h.toSound hh harchive hrequest hne hlatest (fun _ _ hl _ => hl)
    (fun _ _ hl _ => hl) hstart hstop hdealt

end World

variable {e : Engine}

/-- A combined run delivers the events of every ledger of its range that the filters let pass, each
once and in order, wherever the window of the live node begins and however it moves. An archive run
and, from within the window, a live run over the same range deliver the same. -/
theorem combined_delivers_exactly_once {w : World (e.assign (.combined (some start) (some stop)))}
    (harchive : e.archive.isSome = true) (hle : start ≤ stop) (hne : stop ≠ .last)
    (hs : w.Serves s filters overlap start stop) (ha : w.Archives s start stop)
    (hh : w.Reports health) (hlatest : ∀ n, stop ≤ (health n).latest) :
    ∃ history summary,
      summary =
        ⟨.completed, .ofNat (e.decoder.selected filters (s.between start stop)).length, stop + 1⟩ ∧
      w.Ends history summary ∧
      received history = e.decoder.selected filters (s.between start stop) ∧
      (∀ w' : World (e.assign (.archive start stop)), w'.Undisturbed filters →
        w'.Archives s start stop →
        (∃ health, w'.reply [] (.health .archive) = .ok health ∧ health.healthy = true ∧
          start ≤ health.latest) →
        ∃ history', w'.Ends history' summary ∧ received history' = received history) ∧
      ∀ w' : World (e.assign (.live (some start) (some stop))),
        w'.Serves s filters overlap start stop → w'.Reports health →
        (health 0).oldestAvailable e.config.retentionMargin ≤ start →
        ∃ history', w'.Ends history' summary ∧ received history' = received history := by
  obtain ⟨moments, sink, hl, hdealt⟩ := hs.choose_leads hh ha harchive rfl hne hlatest
    (UInt32.le_refl start) hle (.begin _ filters .live s start)
  rw [List.append_nil] at hdealt
  obtain ⟨history, hends, hreceived⟩ := hdealt.ends hne hl
  refine ⟨history, _, rfl, hends, hreceived, ?_, ?_⟩
  · rintro w' hundisturbed ha' ⟨health', hr, hhealthy, hlatest'⟩
    obtain ⟨moments, sink, hl, hdealt⟩ := ha'.begin_leads hundisturbed ⟨hs.decodes, hs.distinct⟩ rfl
      hle hr hhealthy hlatest'
    obtain ⟨history', hends', hreceived'⟩ := hdealt.ends hne hl
    exact ⟨history', hends', hreceived'.trans hreceived.symm⟩
  · intro w' hs' hh' holdest
    obtain ⟨moments, sink, hl, hdealt⟩ := hs'.begin_leads hh' rfl hle hne holdest
      (UInt32.le_trans hle (hlatest 0)) ⟨0, fun n _ => hlatest n⟩
    obtain ⟨history', hends', hreceived'⟩ := hdealt.ends hne hl
    exact ⟨history', hends', hreceived'.trans hreceived.symm⟩

open Rehearsal

def movingNode : Node :=
  { risingNode with
    windows := [⟨5, 9, true⟩, ⟨8, 9, true⟩, ⟨3, 8, true⟩]
    ledgers := [⟨5, "", "", "", risingNode.eventsOf 5⟩, ⟨6, "", "", "", []⟩,
      ⟨7, "", "", "", risingNode.eventsOf 7⟩] }

def movingEngine : Engine where
  config := { EngineConfig.default with pageSize := 2, retentionMargin := 1 }
  urls := .ofList []
  decoder := .standard
  live := "live"
  archive := some "archive"
  filters := []
  control := .initial

theorem movingNode_delivers_exactly_once :
    ∃ history, (Node.world (movingEngine.assign (.combined (some 5) (some 7))) movingNode movingNode
        []).Ends history ⟨.completed, 4, 8⟩ ∧
      received history = Decoder.standard.selected [] risingNode.events := by
  have hserves : (Node.world (movingEngine.assign (.combined (some 5) (some 7))) movingNode
      movingNode []).Serves movingNode.source [] 1 5 7 :=
    Node.world_serves risingNode_sound (by decide) (by decide)
  have hstored : ∀ n : LedgerNumber, 5 ≤ n → n ≤ 7 →
      ∃ ledger ∈ movingNode.ledgers, ledger.sequence = n := by
    intro n hn hn'
    have hcases : n = 5 ∨ n = 6 ∨ n = 7 := by grind
    rcases hcases with rfl | rfl | rfl <;> decide
  have hread : ∀ ledger ∈ movingNode.ledgers, Decoder.standard.ledgerEvents ledger =
      .ok (movingNode.source.events ledger.sequence) := by
    simp only [movingNode, List.forall_mem_cons]
    exact ⟨rfl, rfl, rfl, by simp⟩
  have harchives := @Node.world_archives (movingEngine.assign (.combined (some 5) (some 7)))
    movingNode movingNode [] 5 7 movingNode.source (by decide) (by decide) hstored hread
  have hwindows : ∀ window ∈ movingNode.windows, window.healthy = true ∧ 7 ≤ window.latest := by
    decide
  have hwindow (n : Nat) := hwindows _ (Node.window_after_mem (by decide) n)
  have hreports := @Node.world_reports (movingEngine.assign (.combined (some 5) (some 7)))
    movingNode movingNode [] fun n => (hwindow n).1
  obtain ⟨history, summary, rfl, hends, hreceived, -⟩ := combined_delivers_exactly_once rfl
    (by decide) (by decide) hserves harchives hreports
    fun n => (hwindow n).2
  refine ⟨history, hends, hreceived.trans ?_⟩
  exact congrArg (Decoder.standard.selected []) between_risingNode

end LedgerFeed
