import Mathlib.Data.List.Forall2
import Mathlib.Data.List.TakeWhile
import LedgerFeed.Proofs.Live
import LedgerFeed.Proofs.Placed
import LedgerFeed.Proofs.Resume

/-! What a summary says of its run. Wherever the run gets, what was offered so far is, ledger by
ledger, all that was shown of the ledgers that it has left behind, and then a part of the one that
it is at. So the ledger that the summary names is one up to which nothing is missing. -/

namespace LedgerFeed

variable {a : Assignment} {history : List (Moment a)}

def Moment.page? (ledger : LedgerNumber) : Moment a → Option EventsPage
  | ⟨.events poll, _, .ok page⟩ => if poll.ledger = ledger then some page else none
  | _ => none

def pagesOf (history : List (Moment a)) (ledger : LedgerNumber) : List EventsPage :=
  history.reverse.filterMap (Moment.page? ledger)

theorem pagesOf_cons (m : Moment a) (earlier : List (Moment a)) (ledger : LedgerNumber) :
    pagesOf (m :: earlier) ledger = pagesOf earlier ledger ++ (m.page? ledger).toList := by
  rw [pagesOf, List.reverse_cons, List.filterMap_append]
  cases h : m.page? ledger <;> simp [pagesOf, h]

@[simp] theorem pagesOf_append (later earlier : List (Moment a)) (ledger : LedgerNumber) :
    pagesOf (later ++ earlier) ledger = pagesOf earlier ledger ++ pagesOf later ledger := by
  simp [pagesOf]

theorem pagesOf_eq_nil (h : ∀ request, .events request ∉ asked history) (ledger : LedgerNumber) :
    pagesOf history ledger = [] := by
  refine List.filterMap_eq_nil_iff.mpr fun m hm => ?_
  have hasked : m.question ∈ asked history := List.mem_map_of_mem hm
  obtain ⟨pending, signals, reply⟩ := m
  cases pending with
  | events poll => exact absurd hasked (h poll.request)
  | liveHealth | archiveHealth | ledgers | verdict | pause => rfl

theorem pagesOf_moment {w : World a} {poll : Poll} {page : EventsPage}
    (hr : w.reply history (.events poll.request) = .ok page) (ledger : LedgerNumber) :
    pagesOf [w.moment history (.events poll)] ledger =
      if poll.ledger = ledger then [page] else [] := by
  have hm : (w.moment history (.events poll)).page? ledger =
      if poll.ledger = ledger then some page else none := by
    rw [World.moment, Moment.page?.eq_def]
    exact hr ▸ rfl
  rw [pagesOf_cons, hm]
  split <;> rfl

def Moment.payloads : Moment a → List RawLedger
  | ⟨.ledgers .., _, .ok page⟩ => page.ledgers
  | _ => []

/-- A page ends the poll of a ledger by an event of a later one, or if there is nothing to go on
with. -/
def EventsPage.Ends (page : EventsPage) (ledger : LedgerNumber) : Prop :=
  (∃ raw ∈ page.events, ledger < raw.ledger) ∨ page.events = [] ∨ page.cursor = none

theorem EventsPage.ends_iff {page : EventsPage} {ledger : LedgerNumber} :
    page.Ends ledger ↔ page.runsPast ledger = true ∨ page.nextCursor? = none := by
  unfold Ends runsPast nextCursor?
  rw [List.any_eq_true, ite_eq_left_iff]
  simp only [decide_eq_true_eq, List.isEmpty_iff, Decidable.or_iff_not_imp_left]

/-- The events of a ledger on a page are those that stand before the first event of a later one. -/
inductive EventsPage.Shows (page : EventsPage) (ledger : LedgerNumber) : List RawEvent → Prop
  | split {before after : List RawEvent} (he : page.events = before ++ after)
      (hbefore : ∀ raw ∈ before, raw.ledger ≤ ledger)
      (hafter : ∀ raw ∈ after.head?, ledger < raw.ledger) :
      Shows page ledger (before.filter fun raw => raw.ledger = ledger)

/-- What is offered of a page is what it shows. -/
theorem EventsPage.shows_ofLedger (page : EventsPage) (ledger : LedgerNumber) :
    page.Shows ledger (page.ofLedger ledger) := by
  refine .split (List.takeWhile_append_dropWhile (l := page.events)).symm (fun raw hraw => ?_)
    fun raw hraw => ?_
  · simpa using List.mem_takeWhile_imp hraw
  · have hfirst := List.head?_dropWhile_not (fun raw : RawEvent => decide (raw.ledger ≤ ledger))
      page.events
    rw [hraw] at hfirst
    simpa using hfirst

namespace Assignment

/-- A ledger was dealt with to its end, and these were its events: those of its payload, or else
those that the pages of its poll showed up to the end of the poll. -/
inductive Processed (a : Assignment) (history : List (Moment a)) (ledger : LedgerNumber) :
    List RawEvent → Prop
  | archived {m : Moment a} {payload : RawLedger} {raws : List RawEvent} (hm : m ∈ history)
      (hp : payload ∈ m.payloads) (hl : payload.sequence = ledger)
      (hr : a.decoder.ledgerEvents payload = .ok raws) : Processed a history ledger raws
  | polled {pages : List EventsPage} {last : EventsPage} {shown : List (List RawEvent)}
      (hp : pagesOf history ledger = pages ++ [last]) (hgo : ∀ page ∈ pages, ¬page.Ends ledger)
      (he : last.Ends ledger)
      (hshown : List.Forall₂ (·.Shows ledger ·) (pages ++ [last]) shown) :
      Processed a history ledger shown.flatten

inductive Through (a : Assignment) (history : List (Moment a)) (first : LedgerNumber) :
    LedgerNumber → List RawEvent → Prop
  | nil : Through a history first first []
  | snoc {ledger : LedgerNumber} {done raws : List RawEvent}
      (h : Through a history first ledger done) (hne : ledger ≠ .last)
      (hp : a.Processed history ledger raws) :
      Through a history first ledger.following (done ++ raws)

structure TrueSummary (a : Assignment) (history : List (Moment a)) (sink : Sink)
    (first : LedgerNumber) (summary : Summary) : Prop where
  endless : a.request.stop? = none → summary.outcome = .stopped
  beyond : ∀ stop, a.request.stop? = some stop → stop < first →
    a.request.start? = none ∧ summary = ⟨.completed, 0, first⟩
  stopped : ∀ stop, a.request.stop? = some stop → summary.outcome = .stopped →
    summary.resume ≤ stop
  completed : ∀ stop, a.request.stop? = some stop → first ≤ stop →
    summary.outcome = .completed → summary.resume = stop.following
  processed : ∀ ledger, first ≤ ledger → ledger < summary.resume →
    ∃ raws, a.Processed history ledger raws ∧ raws <:+: sink.offered

/-- What was offered is of the ledgers from the first one up to another, and a part of that one. The
last ledger is polled again and again, so nothing is said of its part. -/
def Past (a : Assignment) (history : List (Moment a)) (offered : List RawEvent)
    (ledger : LedgerNumber) (part : List RawEvent) : Prop :=
  ∃ first done rest, a.firstLedger? history = some first ∧ a.pastStop first = false ∧
    a.Through history first ledger done ∧ offered = done ++ rest ∧ (ledger ≠ .last → rest = part)

def Unpolled (history : List (Moment a)) (ledger : LedgerNumber) : Prop :=
  ∀ l, ledger ≤ l → l ≠ .last → pagesOf history l = []

structure Due (a : Assignment) (history : List (Moment a)) (offered : List RawEvent)
    (ledger : LedgerNumber) : Prop where
  past : a.Past history offered ledger []
  unpolled : Unpolled history ledger

structure Seen (a : Assignment) (history : List (Moment a)) (ledger : LedgerNumber)
    (pages : List EventsPage) : Prop where
  pages : ledger ≠ .last → pagesOf history ledger = pages
  unpolled : Unpolled history ledger.following

def Paging (a : Assignment) (history : List (Moment a)) (offered : List RawEvent)
    (ledger : LedgerNumber) : Prop :=
  ∃ pages, a.Seen history ledger pages ∧ (∀ page ∈ pages, ¬page.Ends ledger) ∧
    a.Past history offered ledger (pages.flatMap (·.ofLedger ledger))

inductive Yields (a : Assignment) (history : List (Moment a)) : Origin → List RawEvent → Prop
  | page {poll : Poll} {page : EventsPage} {rest : List RawEvent} {pages : List EventsPage}
      (hs : a.Seen history poll.ledger (pages ++ [page]))
      (hgo : ∀ page ∈ pages, ¬page.Ends poll.ledger) :
      Yields a history (.page poll page rest)
        ((pages ++ [page]).flatMap (·.ofLedger poll.ledger))
  | batch {b : Batch} {rest raws : List RawEvent} {ledgers : List RawLedger}
      (hp : a.Processed history b.expected raws) (hu : Unpolled history b.expected)
      (hl : ∀ ledger ∈ ledgers, ∃ m ∈ history, ledger ∈ m.payloads) :
      Yields a history (.batch b rest ledgers) raws

def Remains (a : Assignment) (history : List (Moment a)) (offered : List RawEvent)
    (origin : Origin) : Prop :=
  ∃ taken, a.Yields history origin (taken ++ origin.rest) ∧
    a.Past history offered origin.ledger taken

section

variable (a : Assignment) (history : List (Moment a)) (sink : Sink)

def AccountedAfter : Wait → Prop
  | .atTip ledger _ => a.Due history sink.offered ledger
  | .betweenPages poll => a.Paging history sink.offered poll.ledger
  | .betweenBatches next target => next ≤ target ∧ a.Due history sink.offered next

def AccountedAt : Pending → Prop
  | .liveHealth (.choosing none) => history = [] ∧ sink = .ofCapacity a.config.dedupCapacity .live
  | .liveHealth (.choosing (some ledger)) => a.Due history sink.offered ledger
  | .liveHealth (.following ledger) => a.Due history sink.offered ledger
  | .archiveHealth start stop => start ≤ stop ∧ a.Due history sink.offered start
  | .ledgers next _ => a.Due history sink.offered next
  | .events poll => a.Paging history sink.offered poll.ledger
  | .verdict _ _ origin => a.Remains history sink.offered origin
  | .pause _ wait => AccountedAfter a history sink wait

def Accounted : Point → Prop
  | .choosing none => history = [] ∧ sink = .ofCapacity a.config.dedupCapacity .live
  | .choosing (some ledger) => a.Due history sink.offered ledger ∧
      ∀ stop, a.request.stop? = some stop → ledger.toNat ≤ stop.toNat + 1
  | .backfilling next target => next.toNat ≤ target.toNat + 1 ∧ a.Due history sink.offered next
  | .backfilled target => a.Due history sink.offered target.following
  | .taking b ledgers => a.Due history sink.offered b.expected ∧
      ∀ ledger ∈ ledgers, ∃ m ∈ history, ledger ∈ m.payloads
  | .taken b => a.Due history sink.offered b.expected
  | .following ledger _ => a.Due history sink.offered ledger
  | .requesting poll => a.Paging history sink.offered poll.ledger
  | .offering origin => a.Remains history sink.offered origin
  | .paged poll page => a.Remains history sink.offered (.page poll page [])
  | .polled poll _ => a.Due history sink.offered poll.ledger.following
  | .resting _ wait => AccountedAfter a history sink wait
  | .asking pending => AccountedAt a history sink pending
  | .ended (.ok exit) => ∃ first, a.firstLedger? history = some first ∧
      a.TrueSummary history sink first ⟨exit.outcome, sink.delivered, exit.resume⟩
  | .ended (.error _) => True

end

theorem Through.processed {first ledger l : LedgerNumber} {done : List RawEvent}
    (h : a.Through history first ledger done) (hge : first ≤ l) (hlt : l < ledger) :
    ∃ raws, a.Processed history l raws ∧ raws <:+: done := by
  induction h with
  | nil => exact absurd hlt (UInt32.not_lt.mpr hge)
  | @snoc ledger done raws _ hne hp ih =>
    rcases UInt32.lt_or_eq_of_le (LedgerNumber.le_of_lt_following hlt) with hlt | rfl
    · obtain ⟨raws', hp', hin⟩ := ih hlt
      exact ⟨raws', hp', hin.trans (List.prefix_append ..).isInfix⟩
    · exact ⟨raws, hp, (List.suffix_append ..).isInfix⟩

section

variable {m : Moment a} {offered part raws : List RawEvent} {ledger : LedgerNumber}

theorem pagesOf_cons_of_none (hm : m.page? ledger = none) :
    pagesOf (m :: history) ledger = pagesOf history ledger := by
  rw [pagesOf_cons, hm]
  exact List.append_nil _

theorem Processed.cons (h : a.Processed history ledger raws) (hm : m.page? ledger = none) :
    a.Processed (m :: history) ledger raws := by
  cases h with
  | archived hmem hp hl hr => exact .archived (List.mem_cons_of_mem m hmem) hp hl hr
  | polled hp hgo he hshown => exact .polled ((pagesOf_cons_of_none hm).trans hp) hgo he hshown

theorem Processed.of_pages {pages : List EventsPage} {last : EventsPage}
    (hp : pagesOf history ledger = pages ++ [last]) (hgo : ∀ page ∈ pages, ¬page.Ends ledger)
    (he : last.Ends ledger) :
    a.Processed history ledger ((pages ++ [last]).flatMap (·.ofLedger ledger)) := by
  have hshown : List.Forall₂ (·.Shows ledger ·) (pages ++ [last])
      ((pages ++ [last]).map (·.ofLedger ledger)) :=
    List.forall₂_map_right_iff.mpr (List.forall₂_same.mpr fun page _ => page.shows_ofLedger ledger)
  exact .polled hp hgo he hshown

theorem Through.cons {first : LedgerNumber} {done : List RawEvent}
    (h : a.Through history first ledger done) (hm : ∀ l, l < ledger → m.page? l = none) :
    a.Through (m :: history) first ledger done := by
  induction h with
  | nil => exact .nil
  | @snoc ledger _ _ _ hne hp ih =>
    have hlt := LedgerNumber.lt_following hne
    exact .snoc (ih fun l hl => hm l (UInt32.lt_trans hl hlt)) hne (hp.cons (hm ledger hlt))

theorem Past.cons (h : a.Past history offered ledger part)
    (hm : ∀ l, l < ledger → m.page? l = none) : a.Past (m :: history) offered ledger part := by
  obtain ⟨first, done, rest, hfirst, hin, hthrough, hoffered, hrest⟩ := h
  exact ⟨first, done, rest, firstLedger?_cons hfirst m, hin, hthrough.cons hm, hoffered, hrest⟩

theorem Past.offer (h : a.Past history offered ledger part) (raw : RawEvent) :
    a.Past history (offered ++ [raw]) ledger (part ++ [raw]) := by
  obtain ⟨first, done, rest, hfirst, hin, hthrough, rfl, hrest⟩ := h
  refine ⟨first, done, rest ++ [raw], hfirst, hin, hthrough, List.append_assoc .., fun hne => ?_⟩
  rw [hrest hne]

theorem Past.following (h : a.Past history offered ledger raws)
    (hp : ledger ≠ .last → a.Processed history ledger raws) :
    a.Past history offered ledger.following [] := by
  obtain ⟨first, done, rest, hfirst, hin, hthrough, hoffered, hrest⟩ := h
  by_cases hlast : ledger = .last
  · -- the last ledger is followed by itself
    subst hlast
    exact ⟨first, done, rest, hfirst, hin, hthrough, hoffered, fun hne => absurd rfl hne⟩
  · obtain rfl := hrest hlast
    refine ⟨first, done ++ rest, [], hfirst, hin, hthrough.snoc hlast (hp hlast), ?_, fun _ => rfl⟩
    rw [hoffered, List.append_nil]

theorem Past.processed (h : a.Past history offered ledger part) :
    ∃ first, a.firstLedger? history = some first ∧ a.pastStop first = false ∧
      ∀ l, first ≤ l → l < ledger → ∃ raws, a.Processed history l raws ∧ raws <:+: offered := by
  obtain ⟨first, done, rest, hfirst, hin, hthrough, rfl, -⟩ := h
  refine ⟨first, hfirst, hin, fun l hge hlt => ?_⟩
  obtain ⟨raws, hp, hraws⟩ := hthrough.processed hge hlt
  exact ⟨raws, hp, hraws.trans (List.prefix_append ..).isInfix⟩

theorem Unpolled.mono (h : Unpolled history ledger) {l : LedgerNumber} (hle : ledger ≤ l) :
    Unpolled history l :=
  fun l' hle' => h l' (UInt32.le_trans hle hle')

theorem Due.cons (h : a.Due history offered ledger) (hm : ∀ l, m.page? l = none) :
    a.Due (m :: history) offered ledger :=
  ⟨h.past.cons fun l _ => hm l,
    fun l hle hne => (pagesOf_cons_of_none (hm l)).trans (h.unpolled l hle hne)⟩

theorem Seen.cons {pages : List EventsPage} (h : a.Seen history ledger pages)
    (hm : ∀ l, m.page? l = none) : a.Seen (m :: history) ledger pages :=
  ⟨fun hne => (pagesOf_cons_of_none (hm ledger)).trans (h.pages hne),
    fun l hle hne => (pagesOf_cons_of_none (hm l)).trans (h.unpolled l hle hne)⟩

theorem Paging.cons (h : a.Paging history offered ledger) (hm : ∀ l, m.page? l = none) :
    a.Paging (m :: history) offered ledger := by
  obtain ⟨pages, hseen, hgo, hpast⟩ := h
  exact ⟨pages, hseen.cons hm, hgo, hpast.cons fun l _ => hm l⟩

theorem Yields.cons {origin : Origin} (h : a.Yields history origin raws)
    (hm : ∀ l, m.page? l = none) : a.Yields (m :: history) origin raws := by
  cases h with
  | page hs hgo => exact .page (hs.cons hm) hgo
  | batch hp hu hl =>
    refine .batch (hp.cons (hm _)) (fun l hle hne => ?_) fun ledger hledger => ?_
    · exact (pagesOf_cons_of_none (hm l)).trans (hu l hle hne)
    · obtain ⟨m', hm', hpayload⟩ := hl ledger hledger
      exact ⟨m', List.mem_cons_of_mem m hm', hpayload⟩

theorem Yields.withRest {origin : Origin} (h : a.Yields history origin raws)
    (rest : List RawEvent) : a.Yields history (origin.withRest rest) raws := by
  cases h with
  | page hs hgo => exact .page hs hgo
  | batch hp hu hl => exact .batch hp hu hl

theorem Remains.cons {origin : Origin} (h : a.Remains history offered origin)
    (hm : ∀ l, m.page? l = none) : a.Remains (m :: history) offered origin := by
  obtain ⟨taken, hyields, hpast⟩ := h
  exact ⟨taken, hyields.cons hm, hpast.cons fun l _ => hm l⟩

theorem AccountedAfter.cons {sink : Sink} {wait : Wait} (h : AccountedAfter a history sink wait)
    (hm : ∀ l, m.page? l = none) : AccountedAfter a (m :: history) sink wait := by
  cases wait with
  | atTip => exact Due.cons h hm
  | betweenPages => exact Paging.cons h hm
  | betweenBatches => exact ⟨h.1, h.2.cons hm⟩

theorem Due.paging (h : a.Due history offered ledger) : a.Paging history offered ledger :=
  ⟨[], ⟨h.unpolled ledger (UInt32.le_refl _), h.unpolled.mono (LedgerNumber.le_following _)⟩,
    by simp, h.past⟩

theorem Paging.remains {poll : Poll} {signals : Signals} {page : EventsPage}
    (h : a.Paging history offered poll.ledger) :
    a.Remains (⟨.events poll, signals, .ok page⟩ :: history) offered
      (.page poll page (page.ofLedger poll.ledger)) := by
  obtain ⟨pages, hseen, hgo, hpast⟩ := h
  have hother (l : LedgerNumber) (hne : poll.ledger ≠ l) :
      (⟨.events poll, signals, .ok page⟩ : Moment a).page? l = none := if_neg hne
  refine ⟨pages.flatMap (·.ofLedger poll.ledger), ?_, ?_⟩
  · have hall : pages.flatMap (·.ofLedger poll.ledger) ++ page.ofLedger poll.ledger =
        (pages ++ [page]).flatMap (·.ofLedger poll.ledger) := by simp
    refine hall ▸ .page ⟨fun hne => ?_, fun l hle hne => ?_⟩ hgo
    · have hthis : (⟨.events poll, signals, .ok page⟩ : Moment a).page? poll.ledger = some page :=
        if_pos rfl
      rw [pagesOf_cons, hthis, hseen.pages hne]
      rfl
    · refine (pagesOf_cons_of_none (hother l ?_)).trans (hseen.unpolled l hle hne)
      rintro rfl
      exact UInt32.not_lt.mpr hle (LedgerNumber.lt_following hne)
  · refine hpast.cons fun l hlt => hother l ?_
    rintro rfl
    exact UInt32.lt_irrefl _ hlt

theorem Remains.skip {origin : Origin} {raw : RawEvent} {rest offered' : List RawEvent}
    (h : a.Remains history offered origin) (hrest : origin.rest = raw :: rest)
    (ho : offered' = offered ++ [raw]) : a.Remains history offered' (origin.withRest rest) := by
  obtain ⟨taken, hyields, hpast⟩ := h
  subst ho
  refine ⟨taken ++ [raw], ?_, ?_⟩
  · rw [hrest, List.append_cons] at hyields
    rw [origin.rest_withRest]
    exact hyields.withRest rest
  · rw [origin.ledger_withRest]
    exact hpast.offer raw

theorem Remains.paging {poll : Poll} {page : EventsPage}
    (h : a.Remains history offered (.page poll page [])) (hgo : ¬page.Ends poll.ledger) :
    a.Paging history offered poll.ledger := by
  obtain ⟨taken, hyields, hpast⟩ := h
  rw [Origin.rest, List.append_nil] at hyields
  cases hyields with
  | @page _ _ _ pages hs hbefore =>
    refine ⟨pages ++ [page], hs, fun p hp => ?_, hpast⟩
    rcases List.mem_append.mp hp with hp | hp
    · exact hbefore p hp
    · exact List.mem_singleton.mp hp ▸ hgo

theorem Remains.due_of_page {poll : Poll} {page : EventsPage}
    (h : a.Remains history offered (.page poll page [])) (hends : page.Ends poll.ledger) :
    a.Due history offered poll.ledger.following := by
  obtain ⟨taken, hyields, hpast⟩ := h
  rw [Origin.rest, List.append_nil] at hyields
  cases hyields with
  | page hs hgo =>
    exact ⟨hpast.following fun hne => .of_pages (hs.pages hne) hgo hends, hs.unpolled⟩

theorem Remains.due_of_batch {b : Batch} {ledgers : List RawLedger}
    (h : a.Remains history offered (.batch b [] ledgers)) :
    a.Due history offered b.expected.following ∧
      ∀ ledger ∈ ledgers, ∃ m ∈ history, ledger ∈ m.payloads := by
  obtain ⟨taken, hyields, hpast⟩ := h
  rw [Origin.rest, List.append_nil] at hyields
  cases hyields with
  | batch hp hu hl =>
    exact ⟨⟨hpast.following fun _ => hp, hu.mono (LedgerNumber.le_following _)⟩, hl⟩

end

section

variable {sink sink' : Sink} {point point' : Point} {signals : Signals} {pending : Pending}

theorem Past.trueSummary (exit : Exit) {part : List RawEvent}
    (h : a.Past history sink.offered exit.resume part)
    (hendless : a.request.stop? = none → exit.outcome = .stopped)
    (hstopped : exit.outcome = .stopped → a.pastStop exit.resume = false)
    (hcompleted : ∀ stop, a.request.stop? = some stop → exit.outcome = .completed →
      exit.resume = stop.following) :
    ∃ first, a.firstLedger? history = some first ∧
      a.TrueSummary history sink first ⟨exit.outcome, sink.delivered, exit.resume⟩ := by
  obtain ⟨first, hfirst, hin, hprocessed⟩ := h.processed
  refine ⟨first, hfirst, hendless, fun stop hstop hlt => ?_, fun stop hstop ho => ?_,
    fun stop hstop _ => hcompleted stop hstop, hprocessed⟩
  · exact absurd hlt (UInt32.not_lt.mpr (pastStop_eq_false_iff.mp hin stop hstop))
  · exact pastStop_eq_false_iff.mp (hstopped ho) stop hstop

theorem Past.trueSummary_stopped {ledger : LedgerNumber} {part : List RawEvent}
    (h : a.Past history sink.offered ledger part) (hin : a.pastStop ledger = false) :
    ∃ first, a.firstLedger? history = some first ∧
      a.TrueSummary history sink first ⟨.stopped, sink.delivered, ledger⟩ :=
  Past.trueSummary ⟨.stopped, ledger⟩ h (fun _ => rfl) (fun _ => hin) (fun _ _ ho => by cases ho)

theorem Due.trueSummary_completed {stop : LedgerNumber}
    (h : a.Due history sink.offered stop.following) (hstop : a.request.stop? = some stop) :
    ∃ first, a.firstLedger? history = some first ∧
      a.TrueSummary history sink first ⟨.completed, sink.delivered, stop.following⟩ := by
  refine Past.trueSummary ⟨.completed, stop.following⟩ h.past (fun hnone => ?_)
    (fun ho => by cases ho) fun last hlast _ => ?_
  · rw [hstop] at hnone
    cases hnone
  · obtain rfl := Option.some.inj (hstop.symm.trans hlast)
    rfl

theorem trueSummary_of_tipPast {health : Health} (hstart : a.request.start? = none)
    (hpast : a.pastStop health.latest = true) :
    ∃ first,
      a.firstLedger? [⟨.liveHealth (.choosing none), signals, .ok health⟩] = some first ∧
      a.TrueSummary [⟨.liveHealth (.choosing none), signals, .ok health⟩]
        (.ofCapacity a.config.dedupCapacity .live) first ⟨.completed, 0, health.latest⟩ := by
  obtain ⟨stop, hstop, hlt⟩ := pastStop_eq_true_iff.mp hpast
  refine ⟨health.latest, ?_, fun hnone => ?_, fun _ _ _ => ⟨hstart, rfl⟩, fun _ _ ho => ?_,
    fun stop' hstop' hle => ?_, fun l hge hl => absurd hl (UInt32.not_lt.mpr hge)⟩
  · rw [firstLedger?, hstart]
    rfl
  · rw [hstop] at hnone
    cases hnone
  · cases ho
  · obtain rfl := Option.some.inj (hstop.symm.trans hstop')
    exact absurd hlt (UInt32.not_lt.mpr hle)

theorem AccountedAt.due {s : Signals} {start : Option LedgerNumber} {health : Health}
    (h : AccountedAt a history sink (.liveHealth (.choosing start)))
    (hp : a.PlacedAt (.liveHealth (.choosing start)))
    (hin : start = none → a.pastStop health.latest = false) :
    a.Due (⟨.liveHealth (.choosing start), s, .ok health⟩ :: history) sink.offered
      (start.getD health.latest) := by
  cases start with
  | some ledger => exact Due.cons h fun _ => rfl
  | none =>
    obtain ⟨rfl, rfl⟩ := h
    refine ⟨⟨health.latest, [], [], ?_, hin rfl, .nil, rfl, fun _ => rfl⟩, fun _ _ _ => rfl⟩
    rw [firstLedger?, hp.1.fresh rfl]
    rfl

theorem Hears.accounted {reply : (pending.question a).Reply}
    (h : a.Hears signals sink pending reply sink' point) (hp : a.PlacedAt pending)
    (hat : AccountedAt a history sink pending) :
    Accounted a (⟨pending, signals, reply⟩ :: history) sink' point := by
  cases h with
  | failed | ahead | refused | archiveAhead => exact trivial
  | @tipPast health _ hpast =>
    obtain ⟨rfl, rfl⟩ := hat
    exact trueSummary_of_tipPast (hp.1.fresh rfl) hpast
  | @stopped start health _ hin =>
    refine (AccountedAt.due hat hp hin).past.trueSummary_stopped ?_
    cases start with
    | none => exact hin rfl
    | some ledger => exact hp.2 ledger rfl
  | @within start health first ha =>
    have hdue := AccountedAt.due (s := signals) hat hp ha.within
    exact ha.eq ▸ hdue
  | @below start health first ha hlt =>
    obtain ⟨-, hle⟩ := targets_targetBelow hp.1.kind (ha.pastStop hp.2) hlt
    refine ⟨Nat.le_succ_of_le (UInt32.le_iff_toNat_le.mp hle), ?_⟩
    have hdue := AccountedAt.due (s := signals) hat hp ha.within
    exact ha.eq ▸ hdue
  | unclosed => exact Due.cons hat fun _ => rfl
  | closed => exact (Due.cons hat fun _ => rfl).paging
  | archiveReady =>
    exact ⟨Nat.le_succ_of_le (UInt32.le_iff_toNat_le.mp hat.1), hat.2.cons fun _ => rfl⟩
  | ledgers =>
    exact ⟨Due.cons hat fun _ => rfl, fun ledger hledger => ⟨_, List.mem_cons_self .., hledger⟩⟩
  | events => exact Paging.remains hat
  | accepted => exact Remains.cons hat fun _ => rfl
  | rested => exact AccountedAfter.cons hat fun _ => rfl

theorem Accounted.stopped {ledger : LedgerNumber} (h : Accounted a history sink point)
    (hp : a.Placed point) (hc : a.checkpoint? point = some ledger) :
    ∃ first, a.firstLedger? history = some first ∧
      a.TrueSummary history sink first ⟨.stopped, sink.delivered, ledger⟩ := by
  cases checkpoint_cases hc with
  | backfilling hle =>
    refine h.2.past.trueSummary_stopped (pastStop_eq_false_iff.mpr fun stop hstop => ?_)
    exact UInt32.le_trans hle (pastStop_eq_false_iff.mp hp.1.within stop hstop)
  | following => exact (Due.past h).trueSummary_stopped hp.within
  | requesting =>
    obtain ⟨pages, -, -, hpast⟩ := h
    exact hpast.trueSummary_stopped hp.within
  | offering =>
    obtain ⟨taken, -, hpast⟩ := h
    exact hpast.trueSummary_stopped (Offers.within hp)
  | resting milliseconds wait =>
    cases wait with
    | atTip => exact (Due.past h).trueSummary_stopped hp.within
    | betweenPages =>
      obtain ⟨pages, -, -, hpast⟩ := h
      exact hpast.trueSummary_stopped hp.within
    | betweenBatches next target =>
      refine h.2.past.trueSummary_stopped (pastStop_eq_false_iff.mpr fun stop hstop => ?_)
      exact UInt32.le_trans h.1 (pastStop_eq_false_iff.mp hp.1.within stop hstop)

theorem Moves.accounted (h : a.Moves signals sink point sink' point') (hp : a.Placed point)
    (hat : Accounted a history sink point) : Accounted a history sink' point' := by
  cases h with
  | stop hs h => exact hat.stopped hp h
  | choosePast h =>
    obtain ⟨stop, hstop, hlt⟩ := pastStop_eq_true_iff.mp h
    obtain rfl := LedgerNumber.eq_following_of_lt hlt (hat.2 stop hstop)
    exact hat.1.trueSummary_completed hstop
  | @askHealth start h =>
    cases start with
    | none => exact hat
    | some ledger => exact hat.1
  | reachTarget h =>
    obtain rfl := LedgerNumber.eq_following_of_lt h hat.1
    exact hat.2
  | askBatch => exact hat.2
  | endArchive h => exact Due.trueSummary_completed hat (hp.whole h)
  | @chooseAgain target =>
    refine ⟨hat, fun stop hstop => ?_⟩
    have hle := UInt32.le_iff_toNat_le.mp (pastStop_eq_false_iff.mp hp.within stop hstop)
    have hnext := LedgerNumber.toNat_following target
    omega
  | skipLedger => exact ⟨hat.1, fun l hl => hat.2 l (List.mem_cons_of_mem _ hl)⟩
  | endLedgers => exact hat.1
  | gap | unreadable | undecodable | noProgress => exact trivial
  | @read b ledger ledgers raws h hle hr =>
    obtain ⟨hdue, hledgers⟩ := hat
    obtain ⟨m, hm, hpayload⟩ := hledgers ledger (List.mem_cons_self ..)
    refine ⟨[], .batch (.archived hm hpayload h hr) hdue.unpolled fun l hl => ?_, hdue.past⟩
    exact hledgers l (List.mem_cons_of_mem _ hl)
  | duplicate hs h => exact Remains.skip hat h (sink.offered_note ..)
  | filtered hs h => exact Remains.skip hat h (sink.offered_note ..)
  | askHandler hs h => exact Remains.skip hat h (sink.offered_note ..)
  | endPage => exact hat
  | endLedger h =>
    obtain ⟨hdue, hledgers⟩ := Remains.due_of_batch hat
    exact ⟨LedgerNumber.following_eq h ▸ hdue, hledgers⟩
  | @endAtLast b ledgers h =>
    -- a batch that has come to the last ledger has it for its target
    have hdue := (Remains.due_of_batch hat).1
    have hlast : b.target = .last := LedgerNumber.eq_last_of_le (h ▸ hp.2.1)
    rw [h, ← hlast] at hdue
    exact hdue
  | @endBatches b h hlt =>
    have hdue : a.Due history sink.offered b.expected := hat
    rw [LedgerNumber.eq_following_of_lt hlt hp.le] at hdue
    exact hdue
  | nextBatch h hle => exact ⟨hle, hat⟩
  | followPast h =>
    rw [hp.within] at h
    cases h
  | askTip => exact hat
  | beginPoll => exact Due.paging hat
  | askPage => exact hat
  | hitStop h hstop =>
    exact (Remains.due_of_page hat (EventsPage.ends_iff.mpr (.inl h))).trueSummary_completed hstop
  | drained h =>
    exact Remains.due_of_page hat (EventsPage.ends_iff.mpr (h.imp And.left And.right))
  | @nextPage poll page cursor h hc =>
    change a.Paging history sink.offered poll.ledger
    refine Remains.paging hat fun hends => ?_
    rcases EventsPage.ends_iff.mp hends with hpast | hnext
    · rw [h] at hpast
      cases hpast
    · rw [hc] at hnext
      cases hnext
  | @endPolls poll reported h =>
    obtain ⟨stop, hstop, hlt⟩ := pastStop_eq_true_iff.mp h
    have hge := LedgerNumber.le_of_lt_following hlt
    obtain rfl := UInt32.le_antisymm (pastStop_eq_false_iff.mp hp.within stop hstop) hge
    exact Due.trueSummary_completed hat hstop
  | restAtTip => exact hat
  | followOn => exact hat
  | @proceed wait =>
    cases wait with
    | atTip => exact hat
    | betweenPages => exact hat
    | betweenBatches => exact ⟨Nat.le_succ_of_le (UInt32.le_iff_toNat_le.mp hat.1), hat.2⟩
  | pause => exact hat

theorem begin_accounted (h : a.request.check = .ok ()) :
    Accounted a [] a.begin.sink a.begin.point := by
  have hdue {start : LedgerNumber} {feed : Feed} (hstart : a.request.start? = some start) :
      a.Due [] (Sink.ofCapacity a.config.dedupCapacity feed).offered start := by
    refine ⟨⟨start, [], [], ?_, pastStop_of_check h hstart, .nil, rfl, fun _ => rfl⟩,
      fun _ _ _ => rfl⟩
    rw [firstLedger?, hstart]
    rfl
  rcases begin_cases a with ⟨start, stop, hrequest, hbegin⟩ |
    ⟨-, ⟨-, hbegin⟩ | ⟨ledger, hledger, hpast, -⟩⟩
  · rw [hbegin]
    have hstart : a.request.start? = some start := hrequest ▸ rfl
    have hstop : a.request.stop? = some stop := hrequest ▸ rfl
    exact ⟨pastStop_eq_false_iff.mp (pastStop_of_check h hstart) stop hstop, hdue hstart⟩
  · rw [hbegin]
    cases hstart : a.request.start? with
    | none => exact ⟨rfl, rfl⟩
    | some start => exact hdue hstart
  · rw [pastStop_of_check h hledger] at hpast
    cases hpast

theorem Reaches.accounted (hcheck : a.request.check = .ok ()) {p : Progress}
    (h : a.Reaches history p) : Accounted a history p.sink p.point :=
  (h.carries (I := Accounted a) (begin_accounted hcheck) (fun _ hp _ hat h => h.accounted hp hat)
    (fun hp _ hat h => h.accounted hp hat)).2

end

end Assignment

/-- A summary means what it says, whatever was answered. Without a stop ledger the run was stopped.
A run that was stopped is to be resumed within its range, and a run that was completed behind it,
unless it had no start and its first tip lay beyond the range already. And all ledgers from the
first one up to where the run is to be resumed were dealt with to their end. -/
theorem summary_tells (hcheck : a.request.check = .ok ()) {sink : Sink}
    {result : Except IngestError Exit} {summary : Summary}
    (h : a.Reaches history (.ended sink result))
    (hsummary : (Engine.finish a.request.kind sink result).result = .ok summary) :
    ∃ first, a.firstLedger? history = some first ∧ a.TrueSummary history sink first summary := by
  have haccounted := h.accounted hcheck
  cases result with
  | error error => cases hsummary
  | ok exit =>
    obtain rfl := Except.ok.inj hsummary
    exact haccounted

def crossing : Assignment where
  request := .combined (some 3) (some 4)
  config := { EngineConfig.default with retentionMargin := 0 }
  decoder := .standard
  live := "live"
  archive := some "archive"

def crossingPoll : Poll :=
  ⟨4, 5, .ofLedger 4 [] 100⟩

def crossingPage : EventsPage :=
  ⟨[sampleEvent 4 "a", sampleEvent 5 "b"], 5, none⟩

def crossingHistory : List (Moment crossing) :=
  [⟨.verdict (sampleEvent 4 "a") ⟨"a", .contract, 4, "", some "C", [], "", true, ""⟩
      (.page crossingPoll crossingPage []), ⟨false, []⟩, .accepted⟩,
    ⟨.events crossingPoll, ⟨false, []⟩, .ok crossingPage⟩,
    ⟨.liveHealth (.choosing (some 4)), ⟨false, []⟩, .ok ⟨true, 4, 5, 4⟩⟩,
    ⟨.ledgers 3 3, ⟨false, []⟩, .ok ⟨[⟨3, "", "", "", []⟩], 5, 3⟩⟩,
    ⟨.liveHealth (.choosing (some 3)), ⟨false, []⟩, .ok ⟨true, 4, 5, 4⟩⟩]

theorem crossing_reaches : ∃ sink, sink.delivered = 1 ∧
    crossing.Reaches crossingHistory (.ended sink (.ok ⟨.completed, 5⟩)) :=
  ⟨_, rfl, .replayed (crossingHistory.reverse.map Moment.answer) rfl⟩

theorem crossing_summary_tells :
    crossing.request.check = .ok () ∧
    ∃ sink, crossing.Reaches crossingHistory (.ended sink (.ok ⟨.completed, 5⟩)) ∧
      crossing.TrueSummary crossingHistory sink 3 ⟨.completed, 1, 5⟩ := by
  obtain ⟨sink, hdelivered, h⟩ := crossing_reaches
  have hcheck : crossing.request.check = .ok () := rfl
  have hsummary : (Engine.finish crossing.request.kind sink (.ok ⟨.completed, 5⟩)).result =
      .ok ⟨.completed, 1, 5⟩ := hdelivered ▸ rfl
  obtain ⟨first, hfirst, htrue⟩ := summary_tells hcheck h hsummary
  obtain rfl : 3 = first := Option.some.inj hfirst
  exact ⟨hcheck, sink, h, htrue⟩

end LedgerFeed
