import Mathlib.Data.List.Nodup
import SampleStream.Proofs.Session.Calls
import SampleStream.Proofs.Session.Output

/-!
# The thread of continuations

A module is asked for its buffer and for its entry once, and then each step is made from the continuation that
the last successful one gave, on that buffer (`Threaded`). This holds of every module that a load ever gave,
whatever it answers and wherever it goes in a session. What carries it is that a module on its way, active or
parked has with it what its own calls gave last (`Active.Follows`).
-/

namespace SampleStream

universe u v

variable {α : Type v} {σ : Type u}

/-- The calls of a module, the last first, are as they should be. -/
structure Threaded (quantum : Nat) (calls : List Call) : Prop where
  /-- The buffer comes first, and the entry right after it if there is one; only if there are both, steps follow,
  and nothing else. -/
  opening : (∃ error, calls = [.alloc (quantum * sampleSize) (.error error)]) ∨
    (∃ error ptr, calls = [.entry (.error error), .alloc (quantum * sampleSize) (.ok ptr)]) ∨
    ∃ steps entry ptr, calls = steps ++ [.entry (.ok entry), .alloc (quantum * sampleSize) (.ok ptr)] ∧
      ∀ call ∈ steps, call.isStep = true
  /-- A step is made for a whole quantum, on the buffer, and from the continuation that the last successful step
  gave, or else the entry. -/
  steps : ∀ later handle size out ending earlier, calls = later ++ .step handle size out ending :: earlier →
    size = quantum ∧ earlier.findSome? Call.buffer? = some out ∧
      earlier.findSome? Call.continuation? = some handle

/-- The calls of a module that has a buffer and a continuation, grown step by step. -/
inductive Thread (quantum : Nat) : List Call → Pointer → Handle → Prop
  | opened {entry : Handle} {ptr : Pointer} :
    Thread quantum [.entry (.ok entry), .alloc (quantum * sampleSize) (.ok ptr)] ptr entry
  | stepped {calls : List Call} {ptr : Pointer} {current next : Handle}
    (rest : Thread quantum calls ptr current) :
    Thread quantum (.step current quantum ptr (.done next) :: calls) ptr next
  | stalled {calls : List Call} {ptr : Pointer} {current : Handle} {ending : Ending Handle}
    (hending : ∀ next, ending ≠ .done next) (rest : Thread quantum calls ptr current) :
    Thread quantum (.step current quantum ptr ending :: calls) ptr current

namespace Thread

variable {quantum : Nat} {calls : List Call} {ptr : Pointer} {current : Handle}

theorem buffer (h : Thread quantum calls ptr current) : calls.findSome? Call.buffer? = some ptr := by
  induction h with
  | opened => rfl
  | stepped rest ih => exact ih
  | stalled hending rest ih => exact ih

theorem continuation (h : Thread quantum calls ptr current) :
    calls.findSome? Call.continuation? = some current := by
  induction h with
  | opened => rfl
  | stepped rest ih => rfl
  | @stalled calls ptr current ending hending rest ih =>
    cases ending with
    | done next => exact absurd rfl (hending next)
    | failed error => exact ih
    | panicked => exact ih

theorem opening (h : Thread quantum calls ptr current) : ∃ steps entry,
    calls = steps ++ [.entry (.ok entry), .alloc (quantum * sampleSize) (.ok ptr)] ∧
      ∀ call ∈ steps, call.isStep = true := by
  have hstep {calls : List Call} {ptr : Pointer} {call : Call} (hcall : call.isStep = true)
      (h : ∃ steps entry, calls = steps ++ [.entry (.ok entry), .alloc (quantum * sampleSize) (.ok ptr)] ∧
        ∀ call ∈ steps, call.isStep = true) : ∃ steps entry,
      call :: calls = steps ++ [.entry (.ok entry), .alloc (quantum * sampleSize) (.ok ptr)] ∧
        ∀ call ∈ steps, call.isStep = true := by
    obtain ⟨steps, entry, rfl, hsteps⟩ := h
    exact ⟨call :: steps, entry, rfl, List.forall_mem_cons.mpr ⟨hcall, hsteps⟩⟩
  induction h with
  | @opened entry ptr => exact ⟨[], entry, rfl, nofun⟩
  | stepped rest ih => exact hstep rfl ih
  | stalled hending rest ih => exact hstep rfl ih

-- Each step was made from what the calls before it had come to.
theorem before_step (h : Thread quantum calls ptr current) : ∀ later handle size out ending earlier,
    calls = later ++ .step handle size out ending :: earlier →
      size = quantum ∧ Thread quantum earlier out handle := by
  have hsplit {calls : List Call} {ptr : Pointer} {current : Handle} {result : Ending Handle}
      (rest : Thread quantum calls ptr current)
      (ih : ∀ later handle size out ending earlier, calls = later ++ .step handle size out ending :: earlier →
        size = quantum ∧ Thread quantum earlier out handle) :
      ∀ later handle size out ending earlier,
        .step current quantum ptr result :: calls = later ++ .step handle size out ending :: earlier →
          size = quantum ∧ Thread quantum earlier out handle := by
    intro later handle size out ending earlier hcalls
    cases later with
    | nil =>
      cases hcalls
      exact ⟨rfl, rest⟩
    | cons call later => exact ih later handle size out ending earlier (List.tail_eq_of_cons_eq hcalls)
  induction h with
  | opened =>
    intro later handle size out ending earlier hcalls
    have hmem : Call.step handle size out ending ∈ later ++ .step handle size out ending :: earlier :=
      List.mem_append_right later List.mem_cons_self
    rw [← hcalls] at hmem
    simp at hmem
  | stepped rest ih => exact hsplit rest ih
  | stalled hending rest ih => exact hsplit rest ih

theorem threaded (h : Thread quantum calls ptr current) : Threaded quantum calls where
  opening := by
    obtain ⟨steps, entry, hcalls, hsteps⟩ := h.opening
    exact .inr (.inr ⟨steps, entry, ptr, hcalls, hsteps⟩)
  steps := fun later handle size out ending earlier hcalls => by
    obtain ⟨hsize, hbefore⟩ := h.before_step later handle size out ending earlier hcalls
    exact ⟨hsize, hbefore.buffer, hbefore.continuation⟩

end Thread

-- A module that could not be opened is not stepped.
theorem Threaded.of_refused {quantum : Nat} {calls : List Call}
    (h : (∃ error, calls = [.alloc (quantum * sampleSize) (.error error)]) ∨
      ∃ error ptr, calls = [.entry (.error error), .alloc (quantum * sampleSize) (.ok ptr)]) :
    Threaded quantum calls where
  opening := h.elim .inl fun h => .inr (.inl h)
  steps := fun later handle size out ending earlier hcalls => by
    have hmem : Call.step handle size out ending ∈ calls :=
      hcalls ▸ List.mem_append_right later List.mem_cons_self
    rcases h with ⟨error, rfl⟩ | ⟨error, ptr, rfl⟩
    · simp at hmem
    · simp at hmem

variable [CompiledModule σ]

/-- The module is the one that was made as `m`, in the state that its calls have left it in, and has with it what
they gave. -/
structure Active.Follows (a : Active σ) (m : Loaded σ) (quantum : Nat) (events : List Event) : Prop where
  id : m.id = a.module.id
  state : (m.replay events).2 = a.module.state
  thread : Thread quantum (m.replay events).1 a.scratch a.current

-- A step that is made goes on with the thread.
theorem Active.Follows.play {a : Active σ} {m : Loaded σ} {quantum : Nat} {events : List Event}
    (h : a.Follows m quantum events) (channels : List (List Sample)) :
    (a.play quantum channels).2.Follows m quantum
      (.stepped a.module.id a.current quantum a.scratch :: events) := by
  have hanswer : (Event.stepped a.module.id a.current quantum a.scratch).answer? (m.replay events).2 =
      some (.step a.current quantum a.scratch (a.stepped quantum).1, (a.stepped quantum).2) := by
    rw [h.state]
    rfl
  have hid : (Event.stepped a.module.id a.current quantum a.scratch).module = m.id := h.id.symm
  have hreplay := Loaded.replay_cons hid hanswer
  rw [Active.play_left]
  refine ⟨h.id, by rw [hreplay], ?_⟩
  rw [hreplay]
  unfold Active.next
  dsimp only
  cases hending : (a.stepped quantum).1 with
  | done next => exact .stepped h.thread
  | failed error => exact .stalled nofun h.thread
  | panicked => exact .stalled nofun h.thread

/-- The module that a request makes, if its load makes one, in the state that it is made in. -/
def Session.makes (load : α → Except LoadError σ) (s : Session α σ) : Request α σ → List (Loaded σ)
  | .instantiate _ source =>
    match load source with
    | .ok state => [⟨s.loads + 1, state⟩]
    | .error _ => []
  | .retire _ => []

/-- What the worker tells the processor about a load. -/
def Prepared.outcome (generation : Nat) : Except LoadError (Prepared σ) → LoadOutcome σ
  | .ok p => .loaded p
  | .error _ => .failed generation

namespace Session

variable {s : Session α σ} {waiting : List (LoadOutcome σ)} {a : Active σ}

omit [CompiledModule σ] in
theorem carries_append_failed {generation : Nat} (h : s.Carries (waiting ++ [.failed generation]) a) :
    s.Carries waiting a := by
  rcases h with ⟨p, hp, ha⟩ | hheld
  · rw [List.mem_append, List.mem_singleton] at hp
    exact .inl ⟨p, hp.resolve_right nofun, ha⟩
  · exact .inr hheld

omit [CompiledModule σ] in
theorem carries_append_loaded {p : Prepared σ} (h : s.Carries (waiting ++ [.loaded p]) a) :
    s.Carries waiting a ∨ p.activate = a := by
  rcases h with ⟨q, hq, ha⟩ | hheld
  · rw [List.mem_append, List.mem_singleton] at hq
    rcases hq with hq | hq
    · exact .inl (.inl ⟨q, hq, ha⟩)
    · cases hq
      exact .inr ha
  · exact .inl (.inr hheld)

omit [CompiledModule σ] in
theorem outcomes_dropQueues (s : Session α σ) : s.dropQueues.outcomes.items = [] := by
  obtain ⟨trace, heq⟩ := s.dropQueues_eq
  rw [heq]
  rfl

-- A part that goes leaves the outcomes as they are, or takes them all with it.
omit [CompiledModule σ] in
theorem outcomes_dropWorker (s : Session α σ) : s.dropWorker.outcomes.items ⊆ s.outcomes.items := by
  unfold dropWorker
  dsimp only
  split
  · exact fun _ ho => ho
  · rw [outcomes_dropQueues]
    exact List.nil_subset _

omit [CompiledModule σ] in
theorem outcomes_dropProcessor (s : Session α σ) :
    s.dropProcessor.outcomes.items ⊆ s.outcomes.items := by
  unfold dropProcessor
  dsimp only
  split
  · obtain ⟨trace, hactive⟩ := dropActive_eq s.processor.active { s with
      processorAlive := false
      processor := { s.processor with active := none, parked := none } }
    rw [hactive]
    obtain ⟨rest, hparked⟩ := dropActive_eq s.processor.parked { s with
      processorAlive := false, trace
      processor := { s.processor with active := none, parked := none } }
    rw [hparked]
    exact fun _ ho => ho
  · rw [outcomes_dropQueues]
    exact List.nil_subset _

end Session

/-- How the modules that loads gave have been called, while these outcomes wait for the processor. -/
structure Session.Threads (s : Session α σ) (waiting : List (LoadOutcome σ)) (made : List (Loaded σ))
    (quantum : Nat) : Prop where
  size : s.quantum = quantum
  bytes : s.scratchBytes = quantum * sampleSize
  distinct : (made.map Loaded.id).Nodup
  numbered : ∀ m ∈ made, m.id ≤ s.loads
  known : ∀ e ∈ s.calls, ∃ m ∈ made, m.id = e.module
  threaded : ∀ m ∈ made, Threaded quantum (m.replay s.trace).1
  carried : ∀ a, s.Carries waiting a → ∃ m ∈ made, a.Follows m quantum s.trace

namespace Session.Threads

variable {s t : Session α σ} {waiting rest : List (LoadOutcome σ)} {made : List (Loaded σ)} {quantum : Nat}

-- Where no calls are made and no module comes, nothing changes.
theorem quiet (h : s.Threads waiting made quantum) (hsize : t.quantum = s.quantum)
    (hbytes : t.scratchBytes = s.scratchBytes) (hloads : s.loads ≤ t.loads) (hcalls : t.calls = s.calls)
    (hcarries : ∀ a, t.Carries rest a → s.Carries waiting a) : t.Threads rest made quantum := by
  have hreplay (m : Loaded σ) : m.replay t.trace = m.replay s.trace := by
    rw [← m.replay_filter t.trace, ← m.replay_filter s.trace]
    exact congrArg m.replay hcalls
  refine ⟨hsize.trans h.size, hbytes.trans h.bytes, h.distinct,
    fun m hm => Nat.le_trans (h.numbered m hm) hloads, ?_, ?_, ?_⟩
  · rw [hcalls]
    exact h.known
  · intro m hm
    rw [hreplay]
    exact h.threaded m hm
  · intro a ha
    obtain ⟨m, hm, hid, hstate, hthread⟩ := h.carried a (hcarries a ha)
    refine ⟨m, hm, hid, ?_, ?_⟩
    · rw [hreplay]
      exact hstate
    · rw [hreplay]
      exact hthread

-- The module of a number is one.
theorem eq_of_id (h : s.Threads waiting made quantum) {m n : Loaded σ} (hm : m ∈ made) (hn : n ∈ made)
    (hid : m.id = n.id) : m = n :=
  List.inj_on_of_nodup_map h.distinct hm hn hid

-- A step of the module that is active goes on with its thread, and with no other.
theorem afterPlaying (h : s.Threads waiting made quantum) {a : Active σ}
    (ha : s.Carries waiting a) (channels : List (List Sample)) {t : Session α σ}
    (hsize : t.quantum = s.quantum) (hbytes : t.scratchBytes = s.scratchBytes) (hloads : t.loads = s.loads)
    (htrace : t.trace = .stepped a.module.id a.current quantum a.scratch :: s.trace)
    (hcarries : ∀ b, t.Carries rest b → b = (a.play quantum channels).2) :
    t.Threads rest made quantum := by
  obtain ⟨m, hm, hfollows⟩ := h.carried a ha
  have hplayed := hfollows.play channels
  rw [← htrace] at hplayed
  refine ⟨hsize.trans h.size, hbytes.trans h.bytes, h.distinct, by rw [hloads]; exact h.numbered, ?_, ?_, ?_⟩
  · intro e he
    rw [calls, htrace, List.filter_cons_of_pos rfl, List.mem_cons] at he
    rcases he with rfl | he
    · exact ⟨m, hm, hfollows.id⟩
    · exact h.known e he
  · intro n hn
    by_cases hid : n.id = a.module.id
    · rw [h.eq_of_id hn hm (hid.trans hfollows.id.symm)]
      exact hplayed.thread.threaded
    · rw [htrace, Loaded.replay_cons_of_ne (Ne.symm hid)]
      exact h.threaded n hn
  · intro b hb
    rw [hcarries b hb]
    exact ⟨m, hm, hplayed⟩

-- A module that is made is the only one that is called then.
theorem afterMaking (h : s.Threads waiting made quantum) {m : Loaded σ} (hid : m.id = s.loads + 1)
    (events : List Event) (hevents : ∀ e ∈ events, e.module = m.id) (hsize : t.quantum = s.quantum)
    (hbytes : t.scratchBytes = s.scratchBytes) (hloads : t.loads = s.loads + 1)
    (htrace : t.trace = events ++ s.trace) (hthreaded : Threaded quantum (m.replay t.trace).1)
    (hcarries : ∀ a, t.Carries rest a → s.Carries waiting a ∨ a.Follows m quantum t.trace) :
    t.Threads rest (m :: made) quantum := by
  have hother {n : Loaded σ} (hn : n ∈ made) : n.id ≠ m.id := by
    have hle := h.numbered n hn
    omega
  have hreplay {n : Loaded σ} (hn : n ∈ made) : n.replay t.trace = n.replay s.trace := by
    rw [htrace]
    exact Loaded.replay_append_of_ne fun e he => by rw [hevents e he]; exact Ne.symm (hother hn)
  refine ⟨hsize.trans h.size, hbytes.trans h.bytes, ?_, ?_, ?_, ?_, ?_⟩
  · refine List.nodup_cons.mpr ⟨fun hmem => ?_, h.distinct⟩
    obtain ⟨n, hn, hsame⟩ := List.mem_map.mp hmem
    exact hother hn hsame
  · rw [hloads]
    exact List.forall_mem_cons.mpr
      ⟨Nat.le_of_eq hid, fun n hn => Nat.le_succ_of_le (h.numbered n hn)⟩
  · intro e he
    rw [calls, htrace, List.filter_append, List.mem_append] at he
    rcases he with he | he
    · exact ⟨m, List.mem_cons_self, (hevents e (List.mem_filter.mp he).1).symm⟩
    · obtain ⟨n, hn, hid⟩ := h.known e he
      exact ⟨n, List.mem_cons_of_mem m hn, hid⟩
  · refine List.forall_mem_cons.mpr ⟨hthreaded, fun n hn => ?_⟩
    rw [hreplay hn]
    exact h.threaded n hn
  · intro a ha
    rcases hcarries a ha with hold | hnew
    · obtain ⟨n, hn, hfollows⟩ := h.carried a hold
      refine ⟨n, List.mem_cons_of_mem m hn, hfollows.id, ?_, ?_⟩
      · rw [hreplay hn]
        exact hfollows.state
      · rw [hreplay hn]
        exact hfollows.thread
    · exact ⟨m, List.mem_cons_self, hnew⟩

theorem prepare (h : s.Threads waiting made quantum) (load : α → Except LoadError σ) (generation : Nat)
    (source : α) : (s.prepare load generation source).2.Threads
      (waiting ++ [Prepared.outcome generation (s.prepare load generation source).1])
      (s.makes load (.instantiate generation source) ++ made) quantum := by
  unfold Session.prepare Session.makes
  dsimp only
  cases load source with
  | error e =>
    exact h.quiet rfl rfl (Nat.le_succ _) rfl fun _ => carries_append_failed
  | ok state =>
    let m : Loaded σ := ⟨s.loads + 1, state⟩
    -- the module answers from the state that it was made in
    have hfresh : m.replay s.trace = ([], state) := by
      rw [← m.replay_filter, ← List.append_nil (List.filter _ _)]
      refine Loaded.replay_append_of_ne fun e he => ?_
      obtain ⟨n, hn, hid⟩ := h.known e he
      have hle := h.numbered n hn
      change e.module ≠ s.loads + 1
      omega
    have hbytes := h.bytes
    dsimp only [note]
    cases halloc : CompiledModule.alloc state s.scratchBytes with
    | mk result allocated =>
      have hasked : m.replay (.alloc m.id s.scratchBytes :: s.trace) =
          ([.alloc s.scratchBytes result], allocated) := Loaded.replay_alloc hfresh halloc
      cases result with
      | error error =>
        refine h.afterMaking (m := m) rfl [.dropped m.id, .alloc m.id s.scratchBytes]
          (by simp [Event.module]) rfl rfl rfl rfl ?_ fun _ ha => .inl (carries_append_failed ha)
        rw [Loaded.replay_cons_of_not_call rfl, hasked, hbytes]
        exact .of_refused (.inl ⟨error, rfl⟩)
      | ok scratch =>
        dsimp only
        cases hentry : CompiledModule.entry allocated with
        | mk result entered =>
          have hentered : m.replay (.entered m.id :: .alloc m.id s.scratchBytes :: s.trace) =
              ([.entry result, .alloc s.scratchBytes (.ok scratch)], entered) :=
            Loaded.replay_entered hasked hentry
          cases result with
          | error error =>
            refine h.afterMaking (m := m) rfl [.dropped m.id, .entered m.id, .alloc m.id s.scratchBytes]
              (by simp [Event.module]) rfl rfl rfl rfl ?_ fun _ ha => .inl (carries_append_failed ha)
            rw [Loaded.replay_cons_of_not_call rfl, hentered, hbytes]
            exact .of_refused (.inr ⟨error, scratch, rfl⟩)
          | ok entry =>
            have hthread : Thread quantum
                (m.replay (.entered m.id :: .alloc m.id s.scratchBytes :: s.trace)).1 scratch entry := by
              rw [hentered, hbytes]
              exact .opened
            refine h.afterMaking (m := m) rfl [.entered m.id, .alloc m.id s.scratchBytes]
              (by simp [Event.module]) rfl rfl rfl rfl hthread.threaded ?_
            intro a ha
            rcases carries_append_loaded ha with hold | rfl
            · exact .inl hold
            · exact .inr ⟨rfl, by rw [hentered]; rfl, hthread⟩

theorem report (h : s.Threads waiting made quantum) (r : LoadReport) :
    (s.report r).Threads waiting made quantum := by
  obtain ⟨reports, hreport⟩ := s.report_eq r
  rw [hreport]
  exact h.quiet rfl rfl (Nat.le_refl _) rfl fun _ ha => ha

theorem deliver {o : LoadOutcome σ} {next : Session α σ}
    (h : s.Threads (s.outcomes.items ++ [o]) made quantum) (hnext : s.deliver o = some next) :
    next.Threads next.outcomes.items made quantum := by
  unfold Session.deliver at hnext
  split at hnext
  · obtain ⟨outcomes, hpush, rfl⟩ := Option.map_eq_some_iff.mp hnext
    rw [← Queue.items_of_push? hpush] at h
    exact h.quiet rfl rfl (Nat.le_refl _) rfl fun _ ha => ha
  · cases hnext
    have hcalls := s.calls_dropOutcome o
    obtain ⟨trace, hdrop⟩ := s.dropOutcome_eq o
    rw [hdrop] at hcalls ⊢
    refine h.quiet rfl rfl (Nat.le_refl _) hcalls ?_
    rintro a (⟨p, hp, ha⟩ | hheld)
    · exact .inl ⟨p, List.mem_append_left _ hp, ha⟩
    · exact .inr hheld

theorem dropWorker (h : s.Threads s.outcomes.items made quantum) :
    s.dropWorker.Threads s.dropWorker.outcomes.items made quantum := by
  have hcalls := s.calls_dropWorker
  have houtcomes := s.outcomes_dropWorker
  obtain ⟨requests, outcomes, trace, heq, -⟩ := s.dropWorker_cases
  rw [heq] at hcalls houtcomes ⊢
  refine h.quiet rfl rfl (Nat.le_refl _) hcalls ?_
  rintro a (⟨p, hp, ha⟩ | hheld)
  · exact .inl ⟨p, houtcomes hp, ha⟩
  · exact .inr hheld

theorem dropProcessor (h : s.Threads s.outcomes.items made quantum) :
    s.dropProcessor.Threads s.dropProcessor.outcomes.items made quantum := by
  have hcalls := s.calls_dropProcessor
  have houtcomes := s.outcomes_dropProcessor
  obtain ⟨requests, outcomes, trace, heq, -⟩ := s.dropProcessor_eq
  rw [heq] at hcalls houtcomes ⊢
  refine h.quiet rfl rfl (Nat.le_refl _) hcalls ?_
  rintro a (⟨p, hp, ha⟩ | ha | ha)
  · exact .inl ⟨p, houtcomes hp, ha⟩
  · cases ha
  · cases ha

theorem handle {load : α → Except LoadError σ} {r : Request α σ} {next : Session α σ}
    (h : s.Threads s.outcomes.items made quantum) (hnext : s.handle load r = some next) :
    next.Threads next.outcomes.items (s.makes load r ++ made) quantum := by
  cases r with
  | retire m =>
    cases hnext
    exact h.quiet rfl rfl (Nat.le_refl _) rfl fun _ ha => ha
  | instantiate generation source =>
    have hprepared := h.prepare load generation source
    have houtcomes : (s.prepare load generation source).2.outcomes = s.outcomes := by
      obtain ⟨result, events, hprepare, -⟩ := prepare_cases load generation source s
      rw [hprepare]
    rw [← houtcomes] at hprepared
    unfold Session.handle at hnext
    dsimp only at hnext
    generalize s.prepare load generation source = tried at hnext hprepared
    obtain ⟨result, t⟩ := tried
    cases result with
    | ok p => exact hprepared.deliver hnext
    | error e =>
      have hreported := hprepared.report ⟨generation, e⟩
      obtain ⟨reports, hreport⟩ := t.report_eq ⟨generation, e⟩
      have hsame : (t.report ⟨generation, e⟩).outcomes = t.outcomes := by rw [hreport]
      rw [← hsame] at hreported
      exact hreported.deliver hnext

end Session.Threads

namespace Session

/-- The module that a move makes, if it makes one. -/
def made (s : Session α σ) : Move α σ → List (Loaded σ)
  | .turn (.handle load) =>
    match s.workerAlive, s.requests.items with
    | true, r :: _ => s.makes load r
    | _, _ => []
  | _ => []

end Session

namespace History

variable {h : History α σ} {ms : List (Loaded σ)} {quantum : Nat}

/-- The modules that loads gave over a run, the last first, each in the state that it was made in. -/
def made (h : History α σ) : List (Move α σ) → List (Loaded σ)
  | [] => []
  | move :: moves => (h.move move).made moves ++ h.session.made move

theorem threads_handle (ht : h.session.Threads h.session.outcomes.items ms quantum)
    (hworker : h.session.workerAlive = true) {load : α → Except LoadError σ} {next : Session α σ}
    (hnext : h.session.handleNext load = some next) :
    next.Threads next.outcomes.items (h.session.made (.turn (.handle load)) ++ ms) quantum := by
  unfold Session.handleNext at hnext
  unfold Session.made
  rw [hworker]
  dsimp only
  cases hitems : h.session.requests.items with
  | nil =>
    rw [hitems] at hnext
    cases hnext
    exact ht
  | cons r rest =>
    rw [hitems] at hnext
    have hpopped : ({ h.session with requests := { h.session.requests with items := rest } } :
        Session α σ).Threads h.session.outcomes.items ms quantum :=
      ht.quiet rfl rfl (Nat.le_refl _) rfl fun _ ha => ha
    have hhandled := hpopped.handle hnext
    cases r with
    | retire m => exact hhandled
    | instantiate generation source => exact hhandled

-- Nothing is called while messages are taken on.
theorem Sound.threads_taken (hs : h.Sound h.session.outcomes.items)
    (ht : h.session.Threads h.session.outcomes.items ms quantum) : h.taken.session.Threads [] ms quantum := by
  have hcalls : h.taken.session.calls = h.session.calls := by
    rw [History.taken, drain_session]
    exact h.session.counted.calls_drain
  obtain ⟨requests, outcomes, trace, processor, heq, -⟩ := hs.taken_eq
  have hloads : h.taken.session.loads = h.session.loads := by rw [heq]
  refine ht.quiet ?_ ?_ (Nat.le_of_eq hloads.symm) hcalls fun a => hs.carries_of_taken
  · rw [heq]
  · rw [heq]

theorem Sound.threads_process (hs : h.Sound h.session.outcomes.items)
    (ht : h.session.Threads h.session.outcomes.items ms quantum) (channels : List (List Sample)) :
    (h.process channels).session.Threads (h.process channels).session.outcomes.items ms quantum := by
  have htaken := hs.threads_taken ht
  cases hs.plays channels with
  | nothing hstate hprocess hsteps hdeeds =>
    have hnext : (h.process channels).session = h.taken.session.afterSilence :=
      congrArg Prod.snd hprocess
    rw [hnext]
    refine htaken.quiet rfl rfl (Nat.le_refl _) rfl fun a ha => ?_
    rw [← hs.taken_outcomes]
    exact ha
  | module g a hstate hactive hlast hprocess hsteps hdeeds =>
    have hnext : (h.process channels).session = h.taken.session.acknowledge.afterPlaying a channels :=
      congrArg Prod.snd hprocess
    -- acknowledging calls nothing
    have hsame : h.taken.session.acknowledge.scratchBytes = h.taken.session.scratchBytes ∧
        h.taken.session.acknowledge.loads = h.taken.session.loads ∧
        h.taken.session.acknowledge.trace = h.taken.session.trace ∧
        h.taken.session.acknowledge.quantum = h.taken.session.quantum := by
      obtain ⟨acks, ackPending, hack⟩ := h.taken.session.acknowledge_eq
      rw [hack]
      exact ⟨rfl, rfl, rfl, rfl⟩
    obtain ⟨hbytes, hloads, htrace, hquantum⟩ := hsame
    have hsize : h.taken.session.acknowledge.quantum = quantum := hquantum.trans htaken.size
    refine htaken.afterPlaying (.inr (.inl hactive)) channels ?_ ?_ ?_ ?_ fun b hb => ?_
    · rw [hnext]
      exact hquantum
    · rw [hnext]
      exact hbytes
    · rw [hnext]
      exact hloads
    · rw [hnext, ← htrace, ← hsize]
      rfl
    · have honly := (hs.active_of_carries hactive hnext hb).1
      rw [hnext] at honly
      rw [← hsize]
      exact (Option.some.inj honly).symm

-- A move that is not the worker's makes no module.
theorem made_of_idle {s : Session α σ} {move : Move α σ}
    (hidle : ∀ load, move = .turn (.handle load) → s.workerAlive = true → s.handleNext load = none)
    (hhandles : ∀ load, (s.handleNext load).isSome = true) : s.made move = [] := by
  unfold Session.made
  split
  · rw [workerAlive_of_idle hidle hhandles rfl]
  · rfl

theorem threads_move (ht : h.session.Threads h.session.outcomes.items ms quantum)
    (hs : h.session.processorAlive = true → h.Sound h.session.outcomes.items)
    (hhandles : ∀ load, (h.session.handleNext load).isSome = true) (move : Move α σ) :
    (h.move move).session.Threads (h.move move).session.outcomes.items (h.session.made move ++ ms)
      quantum := by
  have hmoved := h.moved move
  generalize (h.move move).session = next at hmoved ⊢
  cases hmoved with
  | processed channels halive => exact (hs halive).threads_process ht channels
  | handled halive hnext => exact threads_handle ht halive hnext
  | processorGone halive => exact ht.dropProcessor
  | workerGone halive => exact ht.dropWorker
  | aside controllerAlive sent control acks reports hidle =>
    rw [made_of_idle hidle hhandles]
    exact ht.quiet rfl rfl (Nat.le_refl _) rfl fun _ ha => ha

-- Along with what every move keeps, so that the worker never waits.
theorem Kept.threads_through {ids : List Nat} (hk : h.Kept ids)
    (ht : h.session.Threads h.session.outcomes.items ms quantum) (moves : List (Move α σ)) :
    (h.through moves).session.Threads (h.through moves).session.outcomes.items (h.made moves ++ ms)
      quantum := by
  induction moves generalizing h ids ms with
  | nil => exact ht
  | cons move moves ih =>
    have hmove := threads_move ht (fun halive => (hk.alive halive).1) hk.handles move
    have hnext := ih (hk.move move) hmove
    rwa [← List.append_assoc] at hnext

/-- Between two moves: the modules that loads gave have been called as they should be. -/
def InThread (h : History α σ) (ms : List (Loaded σ)) (quantum : Nat) : Prop :=
  h.session.Threads h.session.outcomes.items ms quantum

theorem threads_link {config : Config} {s : Session α σ} (hlink : Session.link? config = some s) :
    s.Threads s.outcomes.items [] config.quantumSize.toNat := by
  have hregular := regular_link hlink
  unfold Session.link? at hlink
  split at hlink
  · cases hlink
    refine ⟨rfl, hregular.scratchBytes, .nil, nofun, nofun, nofun, ?_⟩
    rintro a (⟨p, hp, -⟩ | ha | ha)
    · cases hp
    · cases ha
    · cases ha
  · cases hlink

/-- Whatever happens in a session, in whatever order its parts go, and whatever its modules answer: each module
that a load gave was asked for its buffer and then for its entry, and every step of it was made for a whole
quantum, on that buffer, and from the continuation that its last successful step gave, or else its entry. -/
theorem continuations_threaded {config : Config} {s : Session α σ} (hlink : Session.link? config = some s)
    (moves : List (Move α σ)) :
    (History.through ⟨s, []⟩ moves).InThread (History.made ⟨s, []⟩ moves) config.quantumSize.toNat := by
  have hthreads := (Kept.link hlink).threads_through (threads_link hlink) moves
  rwa [List.append_nil] at hthreads

/-- The first module is stepped, fails, panics after it was parked for a load that failed, and is stepped again
after it was parked for a module without a buffer. -/
theorem continuations_threaded_restored :
    let canned : CannedModule := {
      memory := List.replicate 8 0, alloc := .ok 0, entry := .ok ⟨7⟩
      steps := [⟨none, .done (some ⟨8⟩)⟩, ⟨none, .failed (.step "no")⟩, ⟨none, .panicked⟩,
        ⟨none, .done (some ⟨9⟩)⟩] }
    let load : Nat → Except LoadError CannedModule := fun
      | 0 => .ok canned
      | 1 => .error (.malformed "empty")
      | _ => .ok { canned with alloc := .error (.alloc 8) }
    let config : Config := {
      quantumSize := 2, controlCapacity := 1, loaderCapacity := 1, eventCapacity := 1 }
    let s : Session Nat CannedModule := {
      quantum := 2, scratchBytes := 8, control := .empty 1, requests := .empty 1, outcomes := .empty 1
      acks := .empty 1, reports := .empty 1 }
    let quantum : Move Nat CannedModule := .turn (.process [[.zero]])
    let replace (source : Nat) : List (Move Nat CannedModule) :=
      [.turn (.load source), quantum, .turn (.handle load), quantum]
    let moves := replace 0 ++ quantum :: replace 1 ++ replace 2
    let h := History.through ⟨s, []⟩ moves
    Session.link? config = some s ∧
    h.InThread (History.made ⟨s, []⟩ moves) 2 ∧
    (History.made ⟨s, []⟩ moves).map (fun m => (m.id, (m.replay h.session.trace).1)) = [
      (3, [.alloc 8 (.error (.alloc 8))]),
      (1, [.step ⟨8⟩ 2 0 (.done ⟨9⟩), .step ⟨8⟩ 2 0 .panicked, .step ⟨8⟩ 2 0 (.failed (.step "no")),
        .step ⟨7⟩ 2 0 (.done ⟨8⟩), .entry (.ok ⟨7⟩), .alloc 8 (.ok 0)])] := by
  intro canned load config s quantum replace moves h
  have hlink : Session.link? config = some s := rfl
  exact ⟨hlink, continuations_threaded hlink moves, by decide +kernel⟩

end History

end SampleStream
