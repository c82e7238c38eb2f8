import LedgerFeed.Proofs.Tiling

/-! The handover between the sources. A backfill leads up to `margin` ledgers behind the oldest one
that the live node retains. As long as the tip has come so far, the archive has all that is asked of
it, and the ledger behind the backfill is closed. -/

namespace LedgerFeed

variable {a : Assignment} {history : List (Moment a)} {store : List RawLedger}
  {first tip ledger next target : LedgerNumber} {health : Health}

structure Rising (history : List (Moment a)) : Prop where
  healthy : ∀ health ∈ healths history, health.healthy = true
  window : ∀ health ∈ healths history, health.oldest ≤ health.latest
  rises : (healths history).Pairwise fun later earlier =>
    earlier.oldest ≤ later.oldest ∧ earlier.latest ≤ later.latest

structure Stored (store : List RawLedger) (first tip : LedgerNumber) : Prop where
  sorted : store.Pairwise fun l l' => l.sequence < l'.sequence
  all : ∀ ledger, first ≤ ledger → ledger ≤ tip → ∃ l ∈ store, l.sequence = ledger
  none : ∀ l ∈ store, l.sequence ≤ tip

namespace Assignment

/-- When the archive is asked, it has all ledgers of the run up to the tip that was last reported,
and gives the first ones at or after the request. -/
def Gives (a : Assignment) (earlier : List (Moment a)) : Moment a → Prop
  | ⟨.ledgers next target, _, .ok page⟩ =>
    ∀ first health, a.firstLedger? earlier = some first → (healths earlier).head? = some health →
      ∃ store, Stored store first health.latest ∧
        page.ledgers = (store.dropWhile fun l => l.sequence < next).take
          (a.batchRequest next target).limit.toNat
  | _ => True

def KeepsUp (a : Assignment) : List (Moment a) → Prop
  | [] => True
  | m :: earlier => a.Gives earlier m ∧ a.KeepsUp earlier

/-- The sources of a run are complete, and its start is closed when it begins. -/
structure Supplied (a : Assignment) (history : List (Moment a)) : Prop extends Rising history where
  archive : a.KeepsUp history
  start : ∀ start health, a.request.start? = some start →
    (healths history).getLast? = some health → start ≤ health.latest

/-- The tip has come to where a backfill below the window leads. -/
def Covers (a : Assignment) (health : Health) : Prop :=
  health.oldestAvailable a.config.retentionMargin ≤ health.latest ∨
    ∃ stop, a.request.stop? = some stop ∧ stop ≤ health.latest

def Covered (a : Assignment) (history : List (Moment a)) : Prop :=
  ∀ start signals health,
    (⟨.liveHealth (.choosing start), signals, .ok health⟩ : Moment a) ∈ history → a.Covers health

theorem Covered.of_cons {m : Moment a} (h : a.Covered (m :: history)) : a.Covered history :=
  fun start signals health hmem => h start signals health (List.mem_cons_of_mem _ hmem)

theorem Supplied.of_cons {m : Moment a} (h : a.Supplied (m :: history)) : a.Supplied history := by
  have hsub : (healths history).Sublist (healths (m :: history)) := by
    rw [healths_cons]
    exact List.sublist_append_right ..
  refine ⟨⟨fun health hh => h.healthy health (hsub.subset hh),
    fun health hh => h.window health (hsub.subset hh), h.rises.sublist hsub⟩, h.archive.2,
    fun start health hstart hlast => h.start start health hstart ?_⟩
  rw [healths_cons, List.getLast?_append, hlast]
  rfl

structure Reached (a : Assignment) (history : List (Moment a)) (ledger : LedgerNumber) : Prop where
  ge : ∃ first, a.firstLedger? history = some first ∧ first ≤ ledger
  le : healths history = [] ∧ a.request.start? = some ledger ∨
    ∃ health, (healths history).head? = some health ∧ ledger ≤ health.latest

structure Fed (a : Assignment) (history : List (Moment a)) (next target : LedgerNumber) : Prop where
  ge : ∃ first, a.firstLedger? history = some first ∧ first ≤ next
  le : ∃ health, (healths history).head? = some health ∧ target ≤ health.latest ∧
    (a.pastStop target.following = true ∨ target.following ≤ health.latest)

def FedAfter (a : Assignment) (history : List (Moment a)) : Wait → Prop
  | .betweenBatches next target => a.Fed history next target
  | _ => True

def FedIn (a : Assignment) (history : List (Moment a)) : Origin → Prop
  | .page _ _ _ => True
  | .batch b _ ledgers => a.Fed history b.expected b.target ∧
      Consecutive (b.expected.toNat + 1) ledgers

def SafeAt (a : Assignment) (history : List (Moment a)) : Pending → Prop
  | .liveHealth (.choosing (some ledger)) => a.Reached history ledger
  | .ledgers next target => a.Fed history next target
  | .verdict _ _ origin => a.FedIn history origin
  | .pause _ wait => a.FedAfter history wait
  | _ => True

def Safe (a : Assignment) (history : List (Moment a)) : Point → Prop
  | .choosing (some ledger) => a.pastStop ledger = true ∨ a.Reached history ledger
  | .backfilling next target => a.Fed history next target
  | .backfilled target => a.Fed history target.following target
  | .taking b ledgers => a.Fed history b.expected b.target ∧
      Consecutive b.expected.toNat ledgers ∧ (b.expected = b.next → ledgers ≠ [])
  | .taken b => a.Fed history b.expected b.target ∧ b.expected ≠ b.next
  | .offering origin => a.FedIn history origin
  | .resting _ wait => a.FedAfter history wait
  | .asking pending => a.SafeAt history pending
  | .ended result => ∀ error, result = .error error → error.kind ≠ .range
  | _ => True

theorem Covers.targetBelow (h : a.Covers health)
    (hlt : first < health.oldestAvailable a.config.retentionMargin)
    (ht : a.Targets (a.targetBelow health)) :
    a.targetBelow health ≤ health.latest ∧
      (a.pastStop (a.targetBelow health).following = true ∨
        (a.targetBelow health).following ≤ health.latest) := by
  have hbelow := targetBelow_lt (a := a) hlt
  have hnext := LedgerNumber.toNat_following_of_ne (LedgerNumber.ne_last_of_lt hbelow)
  have hbelow' := UInt32.lt_iff_toNat_lt.mp hbelow
  constructor
  · rcases h with hold | ⟨stop, hstop, hle⟩
    · exact UInt32.le_trans (UInt32.le_of_lt hbelow) hold
    · exact UInt32.le_trans (pastStop_eq_false_iff.mp ht.within stop hstop) hle
  by_cases hstop : a.request.stop? = some (a.targetBelow health)
  · refine .inl (pastStop_eq_true_iff.mpr ⟨_, hstop, UInt32.lt_iff_toNat_lt.mpr ?_⟩)
    omega
  refine .inr (UInt32.le_iff_toNat_le.mpr ?_)
  rcases h with hold | ⟨stop, hstop', hle⟩
  · have hold := UInt32.le_iff_toNat_le.mp hold
    omega
  · have hle := UInt32.le_iff_toNat_le.mp hle
    have hlt := UInt32.lt_of_le_of_ne (pastStop_eq_false_iff.mp ht.within stop hstop')
      fun heq => hstop (heq ▸ hstop')
    have hlt := UInt32.lt_iff_toNat_lt.mp hlt
    omega

theorem Fed.mono {next' : LedgerNumber} (h : a.Fed history next target) (hle : next ≤ next') :
    a.Fed history next' target := by
  obtain ⟨first, hfirst, hge⟩ := h.ge
  exact ⟨⟨first, hfirst, UInt32.le_trans hge hle⟩, h.le⟩

theorem Fed.quiet (h : a.Fed history next target) {m : Moment a} (hm : m.health? = none) :
    a.Fed (m :: history) next target := by
  obtain ⟨first, hfirst, hge⟩ := h.ge
  refine ⟨⟨first, firstLedger?_cons hfirst m, hge⟩, ?_⟩
  rw [healths_cons, hm]
  exact h.le

theorem FedAfter.quiet {wait : Wait} (h : a.FedAfter history wait) {m : Moment a}
    (hm : m.health? = none) : a.FedAfter (m :: history) wait := by
  cases wait with
  | atTip | betweenPages => exact trivial
  | betweenBatches => exact Fed.quiet h hm

theorem FedIn.quiet {origin : Origin} (h : a.FedIn history origin) {m : Moment a}
    (hm : m.health? = none) : a.FedIn (m :: history) origin := by
  cases origin with
  | page => exact trivial
  | batch => exact ⟨h.1.quiet hm, h.2⟩

theorem Reached.closed (h : a.Reached history ledger) {signals : Signals}
    (hs : a.Supplied (⟨.liveHealth (.choosing (some ledger)), signals, .ok health⟩ :: history)) :
    ledger ≤ health.latest := by
  rcases h.le with ⟨hnil, hstart⟩ | ⟨earlier, hhead, hle⟩
  · refine hs.start ledger health hstart ?_
    rw [healths_cons, hnil]
    rfl
  · have hrises := hs.rises
    rw [healths_cons] at hrises
    obtain ⟨before, hbefore⟩ : ∃ before, healths history = earlier :: before := by
      exact List.head?_eq_some_iff.mp hhead
    rw [hbefore] at hrises
    exact UInt32.le_trans hle ((List.pairwise_cons.mp hrises).1 earlier (List.mem_cons_self ..)).2

section

variable {signals : Signals} {sink sink' : Sink} {pending : Pending} {point point' : Point}

theorem Safe.of_wait {wait : Wait} (h : a.FedAfter history wait) : a.Safe history wait.point := by
  cases wait <;> exact h

theorem Supplied.page {page : LedgersPage} (hsize : 0 < a.config.pageSize)
    (hs : a.Supplied (⟨.ledgers next target, signals, .ok page⟩ :: history))
    (h : a.Fed history next target) (hle : next ≤ target) :
    page.ledgers ≠ [] ∧ Consecutive next.toNat page.ledgers := by
  obtain ⟨first, hfirst, hge⟩ := h.ge
  obtain ⟨health, hhead, htip, -⟩ := h.le
  obtain ⟨store, hstore, hpage⟩ := hs.archive.1 first health hfirst hhead
  rw [hpage]
  exact batch_of_store hsize hle hstore.sorted fun n hn hn' =>
    hstore.all n (UInt32.le_trans hge hn) (UInt32.le_trans hn' htip)

theorem Supplied.firstLedger {start : Option LedgerNumber} (hp : a.Chooses start)
    (hs : a.Supplied (⟨.liveHealth (.choosing start), signals, .ok health⟩ :: history))
    (h : ∀ ledger, start = some ledger → a.Reached history ledger) :
    ∃ first, a.firstLedger? (⟨.liveHealth (.choosing start), signals, .ok health⟩ :: history) =
      some first ∧ first ≤ start.getD health.latest := by
  cases start with
  | some ledger =>
    obtain ⟨first, hfirst, hge⟩ := (h ledger rfl).ge
    exact ⟨first, firstLedger?_cons hfirst _, hge⟩
  | none =>
    -- the tip that was reported first lies no higher than the last one
    have hrises := hs.rises
    have hhealths : healths (⟨.liveHealth (.choosing none), signals, .ok health⟩ :: history) =
        health :: healths history := rfl
    rw [hhealths] at hrises
    rw [firstLedger?, hp.fresh rfl, hhealths, Option.none_or]
    obtain ⟨earliest, hlast⟩ : ∃ earliest, (health :: healths history).getLast? = some earliest :=
      ⟨_, List.getLast?_eq_some_getLast (List.cons_ne_nil _ _)⟩
    rw [hlast]
    refine ⟨earliest.latest, rfl, ?_⟩
    rcases List.mem_cons.mp (List.mem_of_getLast? hlast) with rfl | hmem
    · exact UInt32.le_refl _
    · exact ((List.pairwise_cons.mp hrises).1 earliest hmem).2

theorem Supplied.fed {start : Option LedgerNumber}
    (hs : a.Supplied (⟨.liveHealth (.choosing start), signals, .ok health⟩ :: history))
    (hc : a.Covers health) (hp : a.PlacedAt (.liveHealth (.choosing start)))
    (h : ∀ ledger, start = some ledger → a.Reached history ledger)
    (ha : a.Admits signals start health first)
    (hlt : first < health.oldestAvailable a.config.retentionMargin) :
    a.Fed (⟨.liveHealth (.choosing start), signals, .ok health⟩ :: history) first
      (a.targetBelow health) := by
  obtain ⟨htargets, -⟩ := targets_targetBelow hp.1.kind (ha.pastStop hp.2) hlt
  refine ⟨?_, health, rfl, hc.targetBelow hlt htargets⟩
  rw [ha.eq]
  exact hs.firstLedger hp.1 h

theorem Hears.safe {reply : (pending.question a).Reply} (hkind : a.request.kind ≠ .archive)
    (hsize : 0 < a.config.pageSize) (harchive : a.archive.isSome = true)
    (h : a.Hears signals sink pending reply sink' point) (hp : a.PlacedAt pending)
    (hs : a.Supplied (⟨pending, signals, reply⟩ :: history))
    (hc : a.Covered (⟨pending, signals, reply⟩ :: history)) (hsafe : a.SafeAt history pending) :
    a.Safe (⟨pending, signals, reply⟩ :: history) point := by
  cases h with
  | failed h =>
    rintro error ⟨⟩
    exact failure?_kind h
  | tipPast | stopped =>
    rintro error ⟨⟩
  | ahead _ _ h => exact absurd (Reached.closed hsafe hs) (UInt32.not_le.mpr h)
  | within => exact trivial
  | refused _ _ hnone =>
    rw [hnone] at harchive
    cases harchive
  | @below start health first ha hlt =>
    refine hs.fed (hc start signals health (List.mem_cons_self ..)) hp (fun ledger h => ?_) ha hlt
    subst h
    exact hsafe
  | unclosed => exact trivial
  | closed => exact trivial
  | archiveAhead | archiveReady =>
    refine absurd ?_ hkind
    rw [show a.request = .archive _ _ from hp]
    rfl
  | @ledgers next target page =>
    obtain ⟨hne, hconsecutive⟩ := hs.page hsize hsafe hp.2
    exact ⟨Fed.quiet hsafe rfl, hconsecutive, fun _ => hne⟩
  | events => exact trivial
  | accepted => exact FedIn.quiet hsafe rfl
  | rested => exact FedAfter.quiet hsafe rfl

theorem Moves.safe (hkind : a.request.kind ≠ .archive)
    (h : a.Moves signals sink point sink' point') (hp : a.Placed point)
    (hsafe : a.Safe history point) : a.Safe history point' := by
  cases h with
  | stop | choosePast | endArchive | followPast | hitStop | endPolls => rintro error ⟨⟩
  | unreadable | undecodable =>
    rintro error ⟨⟩
    simp [IngestError.kind]
  | @askHealth start h =>
    cases start with
    | none => exact trivial
    | some ledger =>
      rcases hsafe with hpast | hreached
      · rw [h ledger rfl] at hpast
        cases hpast
      · exact hreached
  | reachTarget h => exact Fed.mono hsafe (LedgerNumber.le_following_of_lt h (hp.2 hkind))
  | askBatch => exact hsafe
  | chooseAgain =>
    obtain ⟨hge, health, hhead, htip, hpast | hle⟩ := hsafe
    · exact .inl hpast
    · exact .inr ⟨hge, .inr ⟨health, hhead, hle⟩⟩
  | @skipLedger b ledger ledgers h =>
    -- a page that leaves no gap begins with the ledger that is expected
    have hlt := UInt32.lt_iff_toNat_lt.mp h
    rw [hsafe.2.1.head_eq] at hlt
    exact absurd hlt (Nat.lt_irrefl _)
  | @endLedgers b ledgers h =>
    refine ⟨hsafe.1, fun heq => ?_⟩
    cases ledgers with
    | nil => exact hsafe.2.2 heq rfl
    | cons ledger ledgers =>
      -- the first ledger of a batch is not above its target
      have hlt := UInt32.lt_iff_toNat_lt.mp (h ledger rfl)
      have hle := UInt32.le_iff_toNat_le.mp hp.begun
      rw [hsafe.2.1.head_eq, heq] at hlt
      omega
  | gap h =>
    have hlt := UInt32.lt_iff_toNat_lt.mp h
    rw [hsafe.2.1.head_eq] at hlt
    exact absurd hlt (Nat.lt_irrefl _)
  | read => exact ⟨hsafe.1, hsafe.2.1.tail⟩
  | @duplicate origin => cases origin <;> exact hsafe
  | @filtered origin => cases origin <;> exact hsafe
  | @askHandler origin => cases origin <;> exact hsafe
  | endPage => exact trivial
  | @endLedger b ledgers h =>
    have hnext := LedgerNumber.toNat_add_one h
    have hge := UInt32.le_iff_toNat_le.mp hp.1.ge
    refine ⟨hsafe.1.mono (UInt32.le_iff_toNat_le.mpr ?_), ?_, fun heq => ?_⟩
    · exact hnext ▸ Nat.le_succ _
    · exact hnext ▸ hsafe.2
    · have heq := congrArg UInt32.toNat heq
      dsimp only at heq hnext
      omega
  | endAtLast =>
    exact hsafe.1.mono (UInt32.le_trans hp.2.1 (LedgerNumber.le_following _))
  | noProgress h => exact absurd h hsafe.2
  | endBatches h hlt => exact hsafe.1.mono (LedgerNumber.le_following_of_lt hlt hp.le)
  | nextBatch => exact hsafe.1
  | askTip => exact trivial
  | beginPoll => exact trivial
  | askPage => exact trivial
  | drained => exact trivial
  | nextPage => exact trivial
  | restAtTip => exact trivial
  | followOn => exact trivial
  | proceed => exact Safe.of_wait hsafe
  | pause => exact hsafe

theorem begin_safe (a : Assignment) : a.Safe [] a.begin.point := by
  rcases begin_cases a with ⟨start, stop, -, hbegin⟩ | ⟨-, ⟨-, hbegin⟩ | ⟨ledger, -, -, hbegin⟩⟩
  · rw [hbegin]
    exact trivial
  · rw [hbegin]
    change a.SafeAt [] (.liveHealth (.choosing a.request.start?))
    cases h : a.request.start? with
    | none => exact trivial
    | some start =>
      refine ⟨⟨start, ?_, UInt32.le_refl _⟩, .inl ⟨rfl, h⟩⟩
      rw [firstLedger?, h]
      rfl
  · rw [hbegin]
    rintro error ⟨⟩

theorem Reaches.safe (hkind : a.request.kind ≠ .archive) (hsize : 0 < a.config.pageSize)
    (harchive : a.archive.isSome = true) {p : Progress} (h : a.Reaches history p)
    (hs : a.Supplied history) (hc : a.Covered history) : a.Safe history p.point := by
  -- what is said of the sources is said of all that they answered before, too
  refine (h.carries
    (I := fun history _ point => a.Supplied history → a.Covered history → a.Safe history point)
    (fun _ _ => begin_safe a) ?_ ?_).2 hs hc
  · intro history sink pending reply sink' point signals hp _ ih h hs hc
    exact h.safe hkind hsize harchive hp hs hc (ih hs.of_cons hc.of_cons)
  · intro history m sink point sink' point' hp _ ih h hs hc
    exact h.safe hkind hp (ih hs hc)

end

end Assignment

/-- A run over complete sources never fails for its range while the tip covers what it chooses by:
no backfill asks for a ledger beyond the tip that decided it, and none ends before a ledger that has
not closed yet. -/
theorem handover_unbroken (hkind : a.request.kind ≠ .archive) (hsize : 0 < a.config.pageSize)
    (harchive : a.archive.isSome = true) (hs : a.Supplied history) (hc : a.Covered history)
    {p : Progress} (h : a.Reaches history p) :
    (∀ sink error, p = Assignment.failed sink error → error.kind ≠ .range) ∧
    ∀ sink next target, p = .waiting sink (.ledgers next target) →
      ∃ health, (healths history).head? = some health ∧
        next.toNat + (a.batchRequest next target).limit.toNat ≤ health.latest.toNat + 1 := by
  have hsafe := h.safe hkind hsize harchive hs hc
  constructor
  · rintro sink error rfl
    exact hsafe error rfl
  · rintro sink next target rfl
    obtain ⟨health, hhead, htip, -⟩ := Assignment.Fed.le hsafe
    refine ⟨health, hhead, Nat.le_trans (Assignment.limit_batchRequest_le h.placed.2) ?_⟩
    exact Nat.succ_le_succ (UInt32.le_iff_toNat_le.mp htip)

theorem stored_emptyLedgers (first tip : LedgerNumber) :
    Stored (emptyLedgers first tip) first tip := by
  have hsize := tip.toNat_lt_size
  have hnat {n : Nat} (hn : n ≤ tip.toNat) : (UInt32.ofNat n).toNat = n :=
    UInt32.toNat_ofNat_of_lt' (by omega)
  refine ⟨?_, fun ledger hge hle => ?_, ?_⟩
  · refine List.pairwise_map.mpr (List.Pairwise.imp_of_mem (fun {m n} hm hn hlt => ?_)
      List.pairwise_lt_range')
    rw [List.mem_range'_1] at hm hn
    rw [UInt32.lt_iff_toNat_lt, hnat (by omega), hnat (by omega)]
    exact hlt
  · have hge := UInt32.le_iff_toNat_le.mp hge
    have hle := UInt32.le_iff_toNat_le.mp hle
    refine ⟨_, List.mem_map_of_mem (List.mem_range'_1.mpr ⟨hge, ?_⟩), UInt32.ofNat_toNat⟩
    omega
  · intro l hl
    obtain ⟨n, hn, rfl⟩ := List.mem_map.mp hl
    rw [List.mem_range'_1] at hn
    rw [UInt32.le_iff_toNat_le, hnat (by omega)]
    omega

theorem bridged_supplied : (bridging 2).Supplied bridgedHistory := by
  have hhealths : healths bridgedHistory = [⟨true, 4, 8, 4⟩, ⟨true, 4, 8, 4⟩] := rfl
  refine ⟨⟨?_, ?_, ?_⟩, ⟨trivial, trivial, ?_, trivial, trivial⟩, ?_⟩
  · rw [hhealths]
    decide
  · rw [hhealths]
    decide
  · rw [hhealths]
    decide
  · rintro first health ⟨⟩ ⟨⟩
    exact ⟨emptyLedgers 3 8, stored_emptyLedgers 3 8, by decide⟩
  · rintro start health ⟨⟩ ⟨⟩
    decide

theorem bridged_covered : (bridging 2).Covered bridgedHistory := by
  intro start signals health hmem
  have hhealth : health ∈ healths bridgedHistory := by
    exact List.mem_filterMap.mpr ⟨_, hmem, rfl⟩
  have hhealths : healths bridgedHistory = [⟨true, 4, 8, 4⟩, ⟨true, 4, 8, 4⟩] := rfl
  rw [hhealths] at hhealth
  obtain rfl : health = ⟨true, 4, 8, 4⟩ := by simpa using hhealth
  exact .inl (by decide)

theorem bridged_unbroken :
    (bridging 2).request.kind ≠ .archive ∧ (0 : UInt32) < 100 ∧
    (bridging 2).Supplied bridgedHistory ∧ (bridging 2).Covered bridgedHistory ∧
    ∃ p, (bridging 2).Reaches bridgedHistory p ∧
      ∀ sink error, p = Assignment.failed sink error → error.kind ≠ .range := by
  obtain ⟨sink, h⟩ := bridged_reaches
  have hkind : (bridging 2).request.kind ≠ .archive := by decide
  exact ⟨hkind, by decide, bridged_supplied, bridged_covered, _, h,
    (handover_unbroken hkind (by decide) rfl bridged_supplied bridged_covered h).1⟩

def overreachingHistory : List (Moment (bridging 10)) :=
  [⟨.ledgers 6 10, ⟨false, []⟩, .ok ⟨[], 5, 3⟩⟩,
    ⟨.pause 500 (.betweenBatches 6 10), ⟨false, []⟩, ()⟩,
    ⟨.ledgers 3 10, ⟨false, []⟩, .ok ⟨emptyLedgers 3 5, 5, 3⟩⟩,
    ⟨.liveHealth (.choosing (some 3)), ⟨false, []⟩, .ok ⟨true, 1, 5, 4⟩⟩]

theorem overreaching_reaches : ∃ sink, (bridging 10).Reaches overreachingHistory
    (.ended sink (.error (.archiveGap 6 5))) :=
  ⟨_, .replayed (overreachingHistory.reverse.map Moment.answer) rfl⟩

theorem overreaching_supplied : (bridging 10).Supplied overreachingHistory := by
  have hhealths : healths overreachingHistory = [⟨true, 1, 5, 4⟩] := rfl
  refine ⟨⟨?_, ?_, ?_⟩, ⟨?_, trivial, ?_, trivial, trivial⟩, ?_⟩
  · rw [hhealths]
    decide
  · rw [hhealths]
    decide
  · rw [hhealths]
    decide
  · rintro first health ⟨⟩ ⟨⟩
    exact ⟨emptyLedgers 3 5, stored_emptyLedgers 3 5, by decide⟩
  · rintro first health ⟨⟩ ⟨⟩
    exact ⟨emptyLedgers 3 5, stored_emptyLedgers 3 5, by decide⟩
  · rintro start health ⟨⟩ ⟨⟩
    decide

theorem not_always_unbroken :
    ¬∀ (a : Assignment) (history : List (Moment a)) (p : Progress), a.request.kind = .combined →
      0 < a.config.pageSize → a.archive.isSome = true → a.Supplied history →
      a.Reaches history p →
      ∀ sink expected latest, p ≠ Assignment.failed sink (.archiveGap expected latest) := by
  intro h
  obtain ⟨sink, hreaches⟩ := overreaching_reaches
  exact h (bridging 10) overreachingHistory _ rfl (by decide) rfl overreaching_supplied hreaches
    sink 6 5 rfl

end LedgerFeed
