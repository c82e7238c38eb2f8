import Mathlib.Data.List.TakeWhile
import LedgerFeed.Proofs.Poll
import LedgerFeed.Proofs.Setting

/-! In a setting, a poll deals with what is due of its ledger, whatever the pages are that its
listing comes in. -/

namespace LedgerFeed
namespace Setting

variable {a : Assignment} {s : Setting} {t : Tally} {before : List (Moment a)} {sink : Sink}

theorem endPoll_brings (h : t.Fits before sink) (poll : Poll) (reported : LedgerNumber) :
    s.Brings before (a.endPoll s.signals sink poll reported) (.ok t) fun sink =>
      a.follow s.signals sink poll.ledger.following (max poll.latest reported) := by
  have h' : t.Fits before (sink.measure (.cursor .live poll.ledger.following)) :=
    h.withSink rfl rfl
  rw [Assignment.endPoll]
  by_cases hpast : a.pastStop poll.ledger.following = true
  · rw [if_pos hpast]
    exact .here h' (if_pos hpast).symm
  rw [if_neg hpast]
  split
  · exact wait_brings h' ..
  · exact .here h' rfl

def due (s : Setting) (ledger : LedgerNumber) (place : Nat) : List RawEvent :=
  (((s.listing ledger).drop place).takeWhile fun e => e.ledger ≤ ledger).filter fun e =>
    e.ledger = ledger

variable {latest ledger : LedgerNumber} {place limit : Nat}

theorem ofLedger_slice_append (s : Setting) (latest ledger : LedgerNumber) (place limit : Nat) :
    (s.slice latest ledger place limit).ofLedger ledger ++
      (if (s.slice latest ledger place limit).runsPast ledger then []
        else s.due ledger (place + limit)) = s.due ledger place := by
  have hsplit := List.take_append_drop limit ((s.listing ledger).drop place)
  split
  · rename_i hpast
    obtain ⟨e, he, hlt⟩ := List.any_eq_true.mp hpast
    have hstops : ¬((((s.listing ledger).drop place).take limit).takeWhile
        fun e => decide (e.ledger ≤ ledger)).length =
          (((s.listing ledger).drop place).take limit).length := by
      intro hlength
      have hall := List.takeWhile_eq_self_iff.mp
        ((List.takeWhile_prefix _).eq_of_length hlength) e he
      exact UInt32.not_lt.mpr (of_decide_eq_true hall) (of_decide_eq_true hlt)
    rw [List.append_nil, due, ← hsplit, List.takeWhile_append, if_neg hstops]
    rfl
  · rename_i hpast
    have hall : ∀ e ∈ ((s.listing ledger).drop place).take limit,
        decide (e.ledger ≤ ledger) = true := by
      intro e he
      have hle := List.any_eq_false.mp (Bool.eq_false_iff.mpr hpast) e he
      simpa using hle
    have hself := List.takeWhile_eq_self_iff.mpr hall
    rw [due, due, ← hsplit, List.takeWhile_append_of_pos hall, List.filter_append, List.drop_drop]
    exact congrArg (List.filter _ · ++ _) hself

theorem cursor_of_nextCursor?_slice {cursor : String}
    (h : (s.slice latest ledger place limit).nextCursor? = some cursor) :
    cursor = s.cursor ledger (place + limit) ∧ place + limit < (s.listing ledger).length := by
  obtain ⟨hcursor, -⟩ := EventsPage.cursor_of_nextCursor? _ h
  obtain ⟨hlt, heq⟩ := Option.ite_none_right_eq_some.mp hcursor
  exact ⟨(Option.some.inj heq).symm, hlt⟩

theorem due_of_nextCursor?_slice (hlimit : 0 < limit)
    (h : (s.slice latest ledger place limit).nextCursor? = none) :
    s.due ledger (place + limit) = [] := by
  have hend : (s.listing ledger).length ≤ place + limit := by
    unfold EventsPage.nextCursor? at h
    split at h
    · rename_i hempty
      have hnil : ((s.listing ledger).drop place).take limit = [] := List.isEmpty_iff.mp hempty
      rw [List.take_eq_nil_iff, List.drop_eq_nil_iff] at hnil
      omega
    · exact Nat.not_lt.mp fun hlt => by simp [slice, hlt] at h
  rw [due, List.drop_eq_nil_of_le hend]
  rfl

theorem endPage_brings_of_runsPast (h : t.Fits before sink) (poll : Poll) {page : EventsPage}
    (hpast : page.runsPast poll.ledger = true) :
    s.Brings before (a.endPage s.signals sink poll page) (.ok t) fun sink =>
      a.follow s.signals sink poll.ledger.following (max poll.latest page.latest) := by
  rw [Assignment.endPage, if_pos hpast]
  split
  · rename_i hstop
    obtain ⟨e, -, hlt⟩ := List.any_eq_true.mp hpast
    have hnext := LedgerNumber.lt_following (LedgerNumber.ne_last_of_lt (of_decide_eq_true hlt))
    have hpast : a.pastStop poll.ledger.following = true := by
      rw [pastStop_eq hstop]
      exact decide_eq_true hnext
    exact .here h (if_pos hpast).symm
  · exact endPoll_brings h poll page.latest

theorem leads_page (h : t.Fits before sink) {poll : Poll} {page : EventsPage}
    (hpage : s.page (s.tip .live t.queries) poll.request = page) :
    (s.world a).Leads before (.waiting sink (.events poll))
      [(s.world a).moment before (.events poll)]
      (a.offerPage s.signals (sink.measure (.page .live)) poll page
        (page.ofLedger poll.ledger)) := by
  have hreply : (s.world a).reply before (.events poll.request) = .ok page := by
    rw [← hpage, ← h.queries]
    rfl
  exact @World.leads_events a _ before [] _ _ _ _ hreply (.refl ..)

/-- Pages from a place of a listing on bring all that is due, and lead to the following ledger. -/
def Pages (s : Setting) (a : Assignment) (ledger : LedgerNumber) (place : Nat) : Prop :=
  ∀ (poll : Poll) (page : EventsPage) (t : Tally) (before : List (Moment a)) (sink : Sink),
    poll.ledger = ledger → poll.request.filters = s.filters →
    poll.request.limit = a.config.pageSize →
    page = s.slice (s.tip .live t.queries) ledger place a.config.pageSize.toNat →
    t.Fits before sink →
      s.Brings before (a.offerPage s.signals sink poll page (page.ofLedger ledger))
        (s.feed a.decoder t (s.due ledger place)) fun sink =>
          a.follow s.signals sink ledger.following (max poll.latest (s.tip .live t.queries))

theorem endPage_brings (hsize : 0 < a.config.pageSize) {poll : Poll}
    (hlater : place + a.config.pageSize.toNat < (s.listing poll.ledger).length →
      s.Pages a poll.ledger (place + a.config.pageSize.toNat))
    (hfilters : poll.request.filters = s.filters) (hlimit : poll.request.limit = a.config.pageSize)
    {page : EventsPage} (hpage : page =
      s.slice (s.tip .live t.queries) poll.ledger place a.config.pageSize.toNat)
    (h : t.Fits before sink) :
    s.Brings before (a.endPage s.signals sink poll page)
      (s.feed a.decoder t (if page.runsPast poll.ledger then []
        else s.due poll.ledger (place + a.config.pageSize.toNat))) fun sink =>
        a.follow s.signals sink poll.ledger.following
          (max poll.latest (s.tip .live t.queries)) := by
  have hlatest : page.latest = s.tip .live t.queries := hpage ▸ rfl
  by_cases hpast : page.runsPast poll.ledger = true
  · rw [if_pos hpast, ← hlatest]
    exact endPage_brings_of_runsPast h poll hpast
  rw [if_neg hpast, Assignment.endPage, if_neg hpast]
  cases hnext : page.nextCursor? with
  | none =>
    rw [hpage] at hnext
    rw [due_of_nextCursor?_slice (UInt32.lt_iff_toNat_lt.mp hsize) hnext, ← hlatest]
    exact endPoll_brings h poll page.latest
  | some cursor =>
    rw [hpage] at hnext
    obtain ⟨rfl, hlt⟩ := cursor_of_nextCursor?_slice hnext
    refine (wait_brings h ..).andThen fun moments sink hfits => ?_
    have hpage' : s.page (s.tip .live t.queries)
        (poll.request.continued (s.cursor poll.ledger (place + a.config.pageSize.toNat))) =
          s.slice (s.tip .live t.queries) poll.ledger (place + a.config.pageSize.toNat)
            a.config.pageSize.toNat := by
      simp only [Setting.page, EventsRequest.continued, s.place_cursor, hlimit]
    refine .of_leads (leads_page hfits hpage') ?_
    exact hlater hlt { poll with request := poll.request.continued _ } _ t _ _ rfl hfilters hlimit
      rfl (hfits.quiet rfl rfl rfl rfl)

theorem pages_bring_due (s : Setting) (hsize : 0 < a.config.pageSize) (ledger : LedgerNumber)
    (place : Nat) : s.Pages a ledger place := by
  have hpos : 0 < a.config.pageSize.toNat := UInt32.lt_iff_toNat_lt.mp hsize
  -- pages begin further and further down the listing
  induction hlen : (s.listing ledger).length - place using Nat.strongRecOn generalizing place with
  | ind n ih =>
  rintro poll page t before sink rfl hfilters hlimit hpage h
  have hcontinues : a.Continues s.filters poll.ledger (.page poll page)
      fun signals sink => a.endPage signals sink poll page := hfilters ▸ continues_page poll page
  have hoffered := offerThen_brings hcontinues (page.ofLedger poll.ledger) h
  have hdue : page.ofLedger poll.ledger ++ (if page.runsPast poll.ledger then []
      else s.due poll.ledger (place + a.config.pageSize.toNat)) = s.due poll.ledger place := by
    rw [hpage]
    exact s.ofLedger_slice_append ..
  rw [Assignment.offerPage, hfilters, ← hdue, feed_append]
  refine hoffered.bind fun t' moments sink hfed hfits => ?_
  rw [← queries_of_feed hfed] at hpage ⊢
  refine endPage_brings hsize (fun hlt => ih _ ?_ _ rfl) hfilters hlimit hpage hfits
  omega

end Setting
end LedgerFeed
