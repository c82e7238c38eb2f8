import LedgerFeed.Proofs.Stopping

/-! One run at a time. While a run is in flight, others that want to start, ask whether an engine
runs, or bind an archive change nothing for it; and once it is over the gate is open again. -/

namespace LedgerFeed

namespace Engine

variable {e e' e'' : Engine}

structure Alike (e e' : Engine) : Prop where
  config : e.config = e'.config
  urls : e.urls = e'.urls
  decoder : e.decoder = e'.decoder
  live : e.live = e'.live
  filters : e.filters = e'.filters
  control : e.control = e'.control

structure Vacant (e : Engine) : Prop where
  gate : e.control.gate = .idle
  idle : e.isRunning = false
  enters : ∀ request, (e.start request).2 ≠ .error .alreadyRunning

theorem Alike.refl (e : Engine) : e.Alike e :=
  ⟨rfl, rfl, rfl, rfl, rfl, rfl⟩

theorem Alike.symm (h : e.Alike e') : e'.Alike e :=
  ⟨h.config.symm, h.urls.symm, h.decoder.symm, h.live.symm, h.filters.symm, h.control.symm⟩

theorem Alike.trans (h : e.Alike e') (h' : e'.Alike e'') : e.Alike e'' :=
  ⟨h.config.trans h'.config, h.urls.trans h'.urls, h.decoder.trans h'.decoder,
    h.live.trans h'.live, h.filters.trans h'.filters, h.control.trans h'.control⟩

theorem Alike.signals (h : e.Alike e') : e.signals = e'.signals := by
  rw [Engine.signals, Engine.signals, h.filters, h.control]

theorem alike_bindArchive (e : Engine) (endpoint : String) :
    ((e.bindArchive endpoint).toOption.getD e).Alike e := by
  unfold bindArchive
  split
  · exact .refl e
  · exact ⟨rfl, rfl, rfl, rfl, rfl, rfl⟩

theorem alike_setArchive (e : Engine) (endpoint : String) :
    ((e.setArchive endpoint).toOption.getD e).Alike e := by
  rw [setArchive_eq]
  split
  · exact .refl e
  split
  · exact .refl e
  · exact e.alike_bindArchive endpoint

theorem Alike.setFilters (h : e.Alike e') (filters : List EventFilter) :
    ((e.setFilters filters).toOption.getD e).Alike ((e'.setFilters filters).toOption.getD e') := by
  unfold Engine.setFilters
  split
  · exact h
  · exact ⟨h.config, h.urls, h.decoder, h.live, rfl, h.control⟩

theorem Alike.reload (h : e.Alike e') (filters : List EventFilter) :
    (e.reload filters).Alike (e'.reload filters) := by
  unfold Engine.reload Engine.setFilters
  rw [h.filters]
  split
  · exact h
  · cases filterSetFault? filters with
    | some fault => exact h
    | none => exact ⟨h.config, h.urls, h.decoder, h.live, rfl, h.control⟩

theorem Alike.operate (h : e.Alike e') (hrunning : e.control.gate = .running) (op : Operation) :
    (e.operate op).Alike (e'.operate op) := by
  cases op with
  | stop =>
    exact ⟨h.config, h.urls, h.decoder, h.live, h.filters,
      congrArg Control.requestStop h.control⟩
  | setFilters filters => exact h.setFilters filters
  | clearFilters => exact ⟨h.config, h.urls, h.decoder, h.live, rfl, h.control⟩
  | reload filters => exact h.reload filters
  | bindArchive endpoint =>
    exact (e.alike_bindArchive endpoint).trans (h.trans (e'.alike_bindArchive endpoint).symm)
  | setArchive endpoint =>
    exact (e.alike_setArchive endpoint).trans (h.trans (e'.alike_setArchive endpoint).symm)
  | start request =>
    -- refused in both: the gate is taken, whatever archives there are
    rw [Engine.operate, Engine.operate, start_of_running hrunning,
      start_of_running (h.control ▸ hrunning)]
    exact h

theorem Alike.settle (h : e.Alike e') (a : Assignment) (p : Progress) :
    (e.settle a p).1.Alike (e'.settle a p).1 := by
  cases p with
  | ended =>
    exact ⟨h.config, h.urls, h.decoder, h.live, h.filters, congrArg Control.release h.control⟩
  | waiting => exact h

theorem allow_ne_alreadyRunning (e : Engine) (request : RunRequest) :
    e.allow request ≠ .error .alreadyRunning := by
  have hcheck : request.check ≠ .error .alreadyRunning := by
    unfold RunRequest.check
    split
    · split <;> simp
    · simp
  unfold allow
  intro h
  cases hc : request.check with
  | error error =>
    rw [hc] at h hcheck
    exact hcheck h
  | ok =>
    rw [hc] at h
    change (if _ then _ else _ : Except IngestError Unit) = _ at h
    split at h <;> cases h

theorem vacant_of_gate (h : e.control.gate = .idle) : e.Vacant := by
  refine ⟨h, by simp [Engine.isRunning, Control.isRunning, h], fun request hresult => ?_⟩
  rcases e.start_cases request with ⟨hgate, -⟩ | ⟨-, ⟨error, hallow, hstart⟩ | ⟨-, hstart⟩⟩
  · exact hgate h
  · rw [hstart] at hresult
    obtain rfl := Except.error.inj hresult
    exact e.allow_ne_alreadyRunning request hallow
  · rw [hstart] at hresult
    cases hresult

theorem vacant_of_start (h : e.control.gate = .idle) {request : RunRequest}
    (hresult : ∀ run, (e.start request).2 ≠ .ok (.underWay run)) : (e.start request).1.Vacant := by
  apply vacant_of_gate
  rcases e.start_cases request with ⟨hgate, -⟩ | ⟨-, ⟨error, -, hstart⟩ | ⟨-, hstart⟩⟩
  · exact absurd h hgate
  · rw [hstart]
    rfl
  · rw [hstart] at hresult ⊢
    cases hbegin : (e.assign request).begin with
    | ended => rfl
    | waiting sink pending =>
      rw [hbegin] at hresult
      exact absurd rfl (hresult _)

end Engine

inductive Happening (a : Assignment) where
  | operate (op : Operation)
  | query
  | pause (milliseconds : Nat)
  | answer (pending : Pending) (reply : (pending.question a).Reply)

def Happening.extra {a : Assignment} : Happening a → Bool
  | operate (.start _) | operate (.bindArchive _) | operate (.setArchive _) | query => true
  | operate .stop | operate (.setFilters _) | operate .clearFilters | operate (.reload _)
    | pause _ | answer .. => false

inductive Thins {a : Assignment} : List (Happening a) → List (Happening a) → Prop
  | nil : Thins [] []
  | keep {xs ys : List (Happening a)} (x : Happening a) (h : Thins xs ys) :
      Thins (x :: xs) (x :: ys)
  | drop {xs ys : List (Happening a)} {x : Happening a} (hx : x.extra = true) (h : Thins xs ys) :
      Thins (x :: xs) ys

namespace Scene

variable {a : Assignment} {s s' t : Scene a} {x : Happening a} {xs ys : List (Happening a)}

inductive Does : Scene a → Happening a → Scene a → Prop
  | operate {s : Scene a} {sink : Sink} {pending : Pending} (h : s.progress = .waiting sink pending)
      (op : Operation) : Does s (.operate op) { s with engine := s.engine.operate op }
  | query {s : Scene a} {sink : Sink} {pending : Pending} (h : s.progress = .waiting sink pending) :
      Does s .query s
  | pause {s : Scene a} {sink : Sink} {milliseconds : UInt64} {wait : Wait}
      (h : s.progress = .waiting sink (.pause milliseconds wait))
      (hs : s.engine.control.stop = false) (time : Nat) :
      Does s (.pause time) { s with paused := s.paused + time }
  | answer {s : Scene a} {sink : Sink} {pending : Pending} (h : s.progress = .waiting sink pending)
      (reply : (pending.question a).Reply) :
      Does s (.answer pending reply) (s.answer sink pending reply)

inductive Plays : Scene a → List (Happening a) → Scene a → Prop
  | nil (s : Scene a) : Plays s [] s
  | cons {s s' s'' : Scene a} {x : Happening a} {xs : List (Happening a)} (hd : Does s x s')
      (h : Plays s' xs s'') : Plays s (x :: xs) s''

structure Alike (s t : Scene a) : Prop where
  engine : s.engine.Alike t.engine
  history : s.history = t.history
  progress : s.progress = t.progress
  paused : s.paused = t.paused

theorem Alike.questions (h : s.Alike t) : s.questions = t.questions := by
  rw [Scene.questions, Scene.questions, h.history, h.progress]

theorem Does.later (h : Does s x s') : Later s s' := by
  cases h with
  | operate hw op => exact .single (.operate hw op)
  | query => exact .refl
  | pause hw hstop time => exact .single (.pause hw hstop time)
  | answer hw reply => exact .single (.reply hw reply)

theorem Plays.later (h : Plays s xs s') : Later s s' := by
  induction h with
  | nil => exact .refl
  | cons hd _ ih => exact hd.later.trans ih

theorem Does.alike (h : Does s x s') (hs : s.Sound) (ht : s.Alike t) :
    ∃ t', Does t x t' ∧ s'.Alike t' := by
  cases h with
  | operate hw op =>
    have hrunning := hs.running _ _ hw
    exact ⟨_, .operate (ht.progress ▸ hw) op,
      ht.engine.operate hrunning op, ht.history, ht.progress, ht.paused⟩
  | query hw => exact ⟨t, .query (ht.progress ▸ hw), ht⟩
  | pause hw hstop time =>
    refine ⟨_, .pause (ht.progress ▸ hw) (ht.engine.control ▸ hstop) time,
      ht.engine, ht.history, ht.progress, ?_⟩
    exact congrArg (· + time) ht.paused
  | @answer sink pending hw reply =>
    have hsignals := ht.engine.signals
    refine ⟨_, .answer (ht.progress ▸ hw) reply, ?_, ?_, ?_, ht.paused⟩
    · change (s.engine.settle a (a.resume s.engine.signals sink pending reply)).1.Alike _
      rw [hsignals]
      exact ht.engine.settle a _
    · change _ :: s.history = _ :: t.history
      rw [hsignals, ht.history]
    · change a.resume s.engine.signals sink pending reply = _
      rw [hsignals]
      rfl

theorem Does.alike_of_extra (h : Does s x s') (hs : s.Sound) (hx : x.extra = true) :
    s'.Alike s := by
  cases h with
  | operate hw op =>
    refine ⟨?_, rfl, rfl, rfl⟩
    cases op with
    | start request =>
      rw [Engine.operate, Engine.start_of_running (hs.running _ _ hw)]
      exact .refl _
    | bindArchive endpoint => exact s.engine.alike_bindArchive endpoint
    | setArchive endpoint => exact s.engine.alike_setArchive endpoint
    | stop | setFilters | clearFilters | reload => cases hx
  | query => exact ⟨.refl _, rfl, rfl, rfl⟩
  | pause | answer => cases hx

theorem Alike.trans {s t u : Scene a} (h : s.Alike t) (h' : t.Alike u) : s.Alike u :=
  ⟨h.engine.trans h'.engine, h.history.trans h'.history, h.progress.trans h'.progress,
    h.paused.trans h'.paused⟩

/-- Without some of the extra happenings the run comes to the same. -/
theorem Plays.thinned (h : Plays s xs s') (hs : s.Sound) (ht : s.Alike t) (hthins : Thins xs ys) :
    ∃ t', Plays t ys t' ∧ s'.Alike t' := by
  induction h generalizing t ys with
  | nil =>
    cases hthins
    exact ⟨t, .nil t, ht⟩
  | cons hd h ih =>
    cases hthins with
    | keep x hthins =>
      obtain ⟨t₁, hd', ht₁⟩ := hd.alike hs ht
      obtain ⟨t', h', ht'⟩ := ih (hd.later.sound hs) ht₁ hthins
      exact ⟨t', .cons hd' h', ht'⟩
    | drop hx hthins =>
      -- the other run stays where it is
      exact ih (hd.later.sound hs) ((hd.alike_of_extra hs hx).trans ht) hthins

theorem Does.unique (h : Does s x s') (h' : Does s x t) : s' = t := by
  cases h with
  | operate | query | pause =>
    cases h'
    rfl
  | answer hw reply =>
    cases h' with
    | answer hw' =>
      obtain ⟨rfl, -⟩ := Progress.waiting.inj (hw.symm.trans hw')
      rfl

theorem Plays.unique (h : Plays s xs s') (h' : Plays s xs t) : s' = t := by
  induction h with
  | nil =>
    cases h'
    rfl
  | cons hd _ ih =>
    cases h' with
    | cons hd' h' =>
      obtain rfl := hd.unique hd'
      exact ih h'

def FreesGate (s : Scene a) : Prop :=
  ∀ sink result, s.progress = .ended sink result → s.engine.control.gate = .idle

theorem Does.freesGate (h : Does s x s') : s'.FreesGate := by
  intro sink result hended
  cases h with
  | operate hw | query hw | pause hw => cases hw.symm.trans hended
  | @answer sink pending hw reply =>
    change (s.engine.settle a (a.resume s.engine.signals sink pending reply)).1.control.gate = .idle
    rw [show a.resume s.engine.signals sink pending reply = _ from hended]
    rfl

theorem Plays.freesGate (h : Plays s xs s') (hs : s.FreesGate) : s'.FreesGate := by
  induction h with
  | nil => exact hs
  | cons hd _ ih => exact ih hd.freesGate

theorem opening_freesGate {e : Engine} {request : RunRequest} {flight : Flight}
    (h : (e.start request).2 = .ok flight) : (opening e request).FreesGate := by
  intro sink result hended
  change (e.start request).1.control.gate = .idle
  rw [(Engine.start_eq_ok h).2, show (e.assign request).begin = _ from hended]
  rfl

structure Flies {a : Assignment} (opening : Scene a) (xs : List (Happening a)) (s : Scene a) :
    Prop where
  refuses : ∀ sink pending, s.progress = .waiting sink pending → s.engine.isRunning = true ∧
    ∀ request, s.engine.start request = (s.engine, .error .alreadyRunning)
  undisturbed : ∀ ys, Thins xs ys → ∃ t, Plays opening ys t ∧ s.Alike t ∧
    s.questions = t.questions ∧ ∀ t', Plays opening ys t' → t' = t
  returns : ∀ sink result, s.progress = .ended sink result → s.engine.Vacant

end Scene

/-- A run that was let in has the engine for itself until it is over. -/
theorem single_flight {e : Engine} (hidle : e.control.gate = .idle) (request : RunRequest) :
    (∀ entered, e.control.enter? = some entered → ∀ request',
      { e with control := entered }.start request' =
        ({ e with control := entered }, .error .alreadyRunning)) ∧
    ((∀ run, (e.start request).2 ≠ .ok (.underWay run)) → (e.start request).1.Vacant ∧
      (e.start request).2 ≠ .error .alreadyRunning) ∧
    ∀ flight, (e.start request).2 = .ok flight → ∀ xs s, Scene.Plays (.opening e request) xs s →
      Scene.Flies (.opening e request) xs s := by
  refine ⟨fun entered hentered request' => ?_,
    fun hstart => ⟨Engine.vacant_of_start hidle hstart,
      (Engine.vacant_of_gate hidle).enters request⟩, fun flight hstart xs s h => ?_⟩
  · obtain ⟨-, rfl⟩ := Control.enter?_eq_some_iff.mp hentered
    exact Engine.start_of_taken (by simp) request'
  have hsound := Scene.opening_sound hstart
  refine ⟨fun sink pending hw => ?_, fun ys hthins => ?_, fun sink result hended => ?_⟩
  · have hrunning := (h.later.sound hsound).running _ _ hw
    exact ⟨by simp [Engine.isRunning, Control.isRunning, hrunning],
      Engine.start_of_running hrunning⟩
  · obtain ⟨t, ht, halike⟩ := h.thinned hsound ⟨.refl _, rfl, rfl, rfl⟩ hthins
    exact ⟨t, ht, halike, halike.questions, fun t' ht' => ht'.unique ht⟩
  · exact Engine.vacant_of_gate (h.freesGate (Scene.opening_freesGate hstart) sink result hended)

def unboundEngine : Engine :=
  { crossingEngine with archive := none }

def unboundRequest : RunRequest :=
  .combined (some 4) (some 4)

def disturbed : List (Happening (unboundEngine.assign unboundRequest)) :=
  [.answer (.liveHealth (.choosing (some 4))) (.ok ⟨true, 4, 5, 4⟩), .operate .stop,
    .operate (.bindArchive "late"), .query, .operate (.start (.archive 9 1)),
    .answer (.events crossingPoll) (.ok crossingPage)]

def undisturbed : List (Happening (unboundEngine.assign unboundRequest)) :=
  [.answer (.liveHealth (.choosing (some 4))) (.ok ⟨true, 4, 5, 4⟩), .operate .stop,
    .answer (.events crossingPoll) (.ok crossingPage)]

theorem disturbed_single_flight :
    ∃ (flight : Flight) (s t : Scene (unboundEngine.assign unboundRequest)) (sink : Sink),
      unboundEngine.control.gate = .idle ∧
      (unboundEngine.start unboundRequest).2 = .ok flight ∧
      Scene.Plays (.opening unboundEngine unboundRequest) disturbed s ∧
      Scene.Plays (.opening unboundEngine unboundRequest) undisturbed t ∧ s.Alike t ∧
      t.progress = .ended sink (.ok ⟨.stopped, 4⟩) ∧ s.engine.archive = some "late" ∧
      t.engine.archive = none ∧ s.engine.Vacant := by
  have hs : Scene.Plays (.opening unboundEngine unboundRequest) disturbed _ :=
    .cons (.answer rfl _) (.cons (.operate rfl _) (.cons (.operate rfl _) (.cons (.query rfl)
      (.cons (.operate rfl _) (.cons (.answer rfl _) (.nil _))))))
  have ht : Scene.Plays (.opening unboundEngine unboundRequest) undisturbed _ :=
    .cons (.answer rfl _) (.cons (.operate rfl _) (.cons (.answer rfl _) (.nil _)))
  have hthins : Thins disturbed undisturbed :=
    .keep _ (.keep _ (.drop rfl (.drop rfl (.drop rfl (.keep _ .nil)))))
  have hflies := (single_flight (e := unboundEngine) rfl unboundRequest).2.2 _ rfl _ _ hs
  obtain ⟨t', ht', halike, -, hunique⟩ := hflies.undisturbed _ hthins
  obtain rfl := hunique _ ht
  exact ⟨_, _, _, _, rfl, rfl, hs, ht, halike, rfl, rfl, rfl, hflies.returns _ _ rfl⟩

end LedgerFeed
