import Mathlib.Data.List.Induction
import SampleStream.Proofs.Module.Memory
import SampleStream.Proofs.Session.Ledger
import SampleStream.Proofs.Session.Thread

/-!
# How large the numbers of a session get

The size of the buffers is the one number that a configuration may make too large for a word, and a session
that is linked at all has room for it. From then on nothing grows with the configuration: every module is
asked for a buffer of that very size, every step is for one quantum, and the counters are at most the moves
that were made (`numbers_bounded`).
-/

namespace SampleStream

universe u v w

variable {α : Type v} {σ : Type u}

namespace Session

/-- A session is linked just if its buffers can be counted in a word and its queues have room. -/
theorem isSome_link?_iff (config : Config) : (link? config : Option (Session α σ)).isSome = true ↔
    4 * config.quantumSize.toNat < UInt64.size ∧ ∀ bytes ∈ queueBytes config, bytes < Queue.maxBytes := by
  have hroom : hasRoom config = true ↔ ∀ bytes ∈ queueBytes config, bytes < Queue.maxBytes := by
    simp only [hasRoom, List.all_eq_true, decide_eq_true_eq]
  have hbytes : config.scratchBytes?.isSome = true ↔ 4 * config.quantumSize.toNat < UInt64.size := by
    unfold Config.scratchBytes?
    rw [Nat.mul_comm]
    dsimp only [sampleSize]
    split <;> simp_all
  rw [← hroom, ← hbytes]
  unfold link?
  cases hasRoom config <;> cases config.scratchBytes? <;> simp

end Session

namespace NativeModule

variable {τ : Type w} [NativeStream τ]

/-- The numbers that the module works with are in a word when it is asked for steps of `size` samples: the end
of its memory, rounded up, is in reach of pointers, and a step panics only if its stream does. -/
def Bounded (m : NativeModule τ) (size : Nat) : Prop :=
  m.next ≤ UInt32.size ∧ ∀ handle out, (m.step handle size out).1 = .panicked →
    (NativeStream.step m.stream (m.frames.take size)).ending = .panicked

theorem length_memory_after {m : NativeModule τ} (hguard : guard ≤ m.memory.length)
    (hsmall : m.memory.length < UInt32.size) (calls : List Call) :
    (m.after calls).memory.length < UInt32.size := by
  induction calls generalizing m with
  | nil => exact hsmall
  | cons call calls ih =>
    have hgrows := grows_event hguard hsmall call
    exact ih (Nat.le_trans hguard hgrows.1) hgrows.2

theorem bounded_of_lt {m : NativeModule τ} (hsmall : m.memory.length < UInt32.size) {size : Nat}
    (hsize : 4 * size < UInt64.size) : m.Bounded size := by
  constructor
  · have hlength : m.memory.length ≤ 4294967295 := Nat.le_of_lt_succ hsmall
    show (m.memory.length + (4 - 1)) / 4 * 4 ≤ 4294967296
    omega
  · intro handle out hpanicked
    have hproduct : ¬UInt64.size ≤ size * sampleSize := by
      rw [Nat.mul_comm]
      exact Nat.not_le.mpr hsize
    unfold step at hpanicked
    dsimp only at hpanicked
    rw [if_neg hproduct] at hpanicked
    split at hpanicked
    · cases hpanicked
    · split at hpanicked
      · cases hpanicked
      · split at hpanicked
        · assumption
        · cases hpanicked
        · cases hpanicked

end NativeModule

section Calls

variable [CompiledModule σ] {m : Loaded σ} {events : List Event} {e : Event}

-- Every call of the module is replayed, with what it was asked.
theorem Loaded.exists_call (hmem : e ∈ events) (hid : e.module = m.id) (hcall : e.isCall = true) :
    ∃ (state : σ) (call : Call) (next : σ), e.answer? state = some (call, next) ∧
      call ∈ (m.replay events).1 := by
  induction events with
  | nil => cases hmem
  | cons first events ih =>
    rcases List.mem_cons.mp hmem with rfl | hmem
    · obtain ⟨call, next, hanswer⟩ : ∃ call next,
          e.answer? (m.replay events).2 = some (call, next) := by
        cases e with
        | dropped id => cases hcall
        | _ => exact ⟨_, _, rfl⟩
      exact ⟨_, call, next, hanswer, by rw [replay_cons hid hanswer]; exact List.mem_cons_self⟩
    · obtain ⟨state, call, next, hanswer, hreplay⟩ := ih hmem
      refine ⟨state, call, next, hanswer, ?_⟩
      rw [replay]
      dsimp only
      split
      · split
        · exact List.mem_cons_of_mem _ hreplay
        · exact hreplay
      · exact hreplay

theorem Threaded.size_of_alloc {quantum size : Nat} {calls : List Call}
    {result : Except ModuleError Pointer} (h : Threaded quantum calls) (hmem : .alloc size result ∈ calls) :
    size = quantum * sampleSize := by
  obtain ⟨error, rfl⟩ | ⟨error, ptr, rfl⟩ | ⟨steps, entry, ptr, rfl, hsteps⟩ := h.opening
  · cases List.mem_singleton.mp hmem
    rfl
  · simp only [List.mem_cons, Call.alloc.injEq, reduceCtorEq, List.not_mem_nil, or_false, false_or] at hmem
    exact hmem.1
  · rcases List.mem_append.mp hmem with hstep | hopening
    · cases hsteps _ hstep
    · simp only [List.mem_cons, Call.alloc.injEq, reduceCtorEq, List.not_mem_nil, or_false, false_or]
        at hopening
      exact hopening.1

theorem Threaded.size_of_step {quantum size : Nat} {calls : List Call} {handle : Handle} {out : Pointer}
    {ending : Ending Handle} (h : Threaded quantum calls) (hmem : .step handle size out ending ∈ calls) :
    size = quantum := by
  obtain ⟨later, earlier, hcalls⟩ := List.append_of_mem hmem
  exact (h.steps later handle size out ending earlier hcalls).1

-- The first call of a module asks for its buffer.
theorem Threaded.getLast?_calls {quantum : Nat} {calls : List Call} (h : Threaded quantum calls) :
    ∃ result, calls.getLast? = some (.alloc (quantum * sampleSize) result) := by
  obtain ⟨error, rfl⟩ | ⟨error, ptr, rfl⟩ | ⟨steps, entry, ptr, rfl, -⟩ := h.opening
  · exact ⟨.error error, rfl⟩
  · exact ⟨.ok ptr, rfl⟩
  · exact ⟨.ok ptr, by simp⟩

end Calls

namespace History

variable [CompiledModule σ] {h : History α σ}

/-- The counters of a session are at most so large. -/
structure CountedTo (s : Session α σ) (n : Nat) : Prop where
  sent : s.sent ≤ n
  generation : s.processor.generation ≤ n
  quanta : s.processor.stats.quanta ≤ n
  silent : s.processor.stats.silent ≤ n
  failed : s.processor.stats.failed ≤ n
  droppedLoads : s.processor.stats.droppedLoads ≤ n

-- A quantum leaves the numbers of the controller, and the processor where it is.
theorem Sound.sent_process (hs : h.Sound h.session.outcomes.items) (channels : List (List Sample)) :
    (h.session.process channels).2.sent = h.session.sent := by
  obtain ⟨requests, outcomes, trace, processor, heq, -⟩ := hs.taken_eq
  have htaken : h.taken.session.sent = h.session.sent := by rw [heq]
  cases hs.plays channels with
  | nothing hstate hprocess hsteps hdeeds =>
    rw [hprocess]
    exact htaken
  | module g a hstate hactive hlast hprocess hsteps hdeeds =>
    obtain ⟨acks, ackPending, hack⟩ := h.taken.session.acknowledge_eq
    rw [hprocess, hack]
    exact htaken

theorem sent_turn (hs : h.session.processorAlive = true → h.Sound h.session.outcomes.items)
    {turn : Turn α σ} (hpossible : turn.isPossible h.session = true) :
    (h.turn turn).session.sent ≤ h.session.sent + 1 := by
  cases turn with
  | load source =>
    change (h.session.load source).2.sent ≤ _
    obtain ⟨error, hload⟩ | ⟨control, -, hload⟩ := h.session.load_cases source
    · rw [hload]
      exact Nat.le_succ _
    · rw [hload]
  | process channels => exact Nat.le_succ_of_le (Nat.le_of_eq ((hs hpossible).sent_process channels))
  | handle load =>
    change ((h.session.handleNext load).getD h.session).sent ≤ _
    cases hnext : h.session.handleNext load with
    | none => exact Nat.le_succ _
    | some next =>
      obtain ⟨_, _, _, _, _, rfl⟩ := Session.handleNext_eq hnext
      exact Nat.le_succ _
  | tryReady =>
    obtain ⟨acks, reports, heq, -⟩ := h.session.tryReady_eq
    change h.session.tryReady.2.sent ≤ _
    rw [heq]
    exact Nat.le_succ _
  | waitReady ackFirst microseconds =>
    obtain ⟨acks, reports, heq, -⟩ := h.session.waitReadyFor_eq ackFirst microseconds _
    change (h.session.waitReadyFor ackFirst microseconds _).2.sent ≤ _
    rw [heq]
    exact Nat.le_succ _

-- A move sends one load at most.
theorem sent_move (hs : h.session.processorAlive = true → h.Sound h.session.outcomes.items)
    (move : Move α σ) : (h.move move).session.sent ≤ h.session.sent + 1 := by
  cases move with
  | turn turn =>
    rw [History.move]
    split
    · exact sent_turn hs ‹_›
    · exact Nat.le_succ _
  | dropController =>
    rw [History.move]
    split <;> exact Nat.le_succ _
  | dropProcessor =>
    rw [History.move]
    obtain ⟨_, _, _, heq, -⟩ := h.session.dropProcessor_eq
    split
    · dsimp only
      rw [heq]
      exact Nat.le_succ _
    · exact Nat.le_succ _
  | dropWorker =>
    rw [History.move]
    obtain ⟨_, _, _, heq, -⟩ := h.session.dropWorker_cases
    split
    · dsimp only
      rw [heq]
      exact Nat.le_succ _
    · exact Nat.le_succ _

-- Without a processor, or when it goes, nothing more is counted.
theorem processor_of_gone (hs : h.session.processorAlive = true → h.Sound h.session.outcomes.items)
    {move : Move α σ} (hgone : (h.move move).session.processorAlive ≠ true) :
    (h.move move).session.processor.generation = h.session.processor.generation ∧
      (h.move move).session.processor.stats = h.session.processor.stats := by
  have hmoved := h.moved move
  generalize (h.move move).session = next at hmoved hgone
  cases hmoved with
  | processed channels halive => exact absurd ((hs halive).process channels).1.alive hgone
  | handled halive hnext =>
    obtain ⟨_, _, _, _, _, rfl⟩ := Session.handleNext_eq hnext
    exact ⟨rfl, rfl⟩
  | processorGone halive =>
    obtain ⟨_, _, _, heq, -⟩ := h.session.dropProcessor_eq
    rw [heq]
    exact ⟨rfl, rfl⟩
  | workerGone halive =>
    obtain ⟨_, _, _, heq, -⟩ := h.session.dropWorker_cases
    rw [heq]
    exact ⟨rfl, rfl⟩
  | aside => exact ⟨rfl, rfl⟩

omit [CompiledModule σ] in
theorem countedTo_link {config : Config} {s : Session α σ} (hlink : Session.link? config = some s) :
    CountedTo s 0 := by
  unfold Session.link? at hlink
  split at hlink
  · cases hlink
    exact ⟨Nat.le_refl _, Nat.le_refl _, Nat.le_refl _, Nat.le_refl _, Nat.le_refl _, Nat.le_refl _⟩
  · cases hlink

theorem length_verdictOf (h : History α σ) (move : Move α σ) : (h.verdictOf move).length ≤ 1 := by
  unfold verdictOf
  split
  · split
    · exact Nat.le_refl 1
    · exact Nat.zero_le 1
  · exact Nat.zero_le 1

-- Loads are sent before they are received, and received before they are counted as dropped.
theorem loads_in_order {config : Config} {s : Session α σ} (hlink : Session.link? config = some s)
    (moves : List (Move α σ)) (halive : (History.through ⟨s, []⟩ moves).session.processorAlive = true) :
    (History.through ⟨s, []⟩ moves).session.processor.generation ≤
        (History.through ⟨s, []⟩ moves).session.sent ∧
      (History.through ⟨s, []⟩ moves).session.processor.stats.droppedLoads ≤
        (History.through ⟨s, []⟩ moves).session.processor.generation := by
  have hhistory : ((Ledger.start s).through moves).history = History.through ⟨s, []⟩ moves :=
    Ledger.history_through _ _
  have hbalanced := Ledger.balanced_through hlink moves halive
  rw [← hhistory] at hbalanced ⊢
  have hsent := hbalanced.accounted.sent_eq
  have hgeneration := hbalanced.accounted.generation_eq
  omega

theorem countedTo_through {config : Config} {s : Session α σ} (hlink : Session.link? config = some s)
    (moves : List (Move α σ)) :
    CountedTo (History.through ⟨s, []⟩ moves).session moves.length := by
  induction moves using List.reverseRecOn with
  | nil => exact countedTo_link hlink
  | append_singleton moves move ih =>
    have hsound (halive : (History.through ⟨s, []⟩ moves).session.processorAlive = true) :
        (History.through ⟨s, []⟩ moves).Sound (History.through ⟨s, []⟩ moves).session.outcomes.items :=
      (Sound.link hlink).through moves halive
    have horder := loads_in_order hlink (moves ++ [move])
    have hlast : History.through ⟨s, []⟩ (moves ++ [move]) =
        (History.through ⟨s, []⟩ moves).move move := through_append _ _ _
    rw [hlast] at horder
    rw [hlast, List.length_append, List.length_singleton]
    generalize History.through ⟨s, []⟩ moves = h at ih hsound horder
    have hsent := sent_move hsound move
    have hsent_le := ih.sent
    by_cases halive : (h.move move).session.processorAlive = true
    · obtain ⟨hgeneration, hdropped⟩ := horder halive
      have hcounts := (hsound (move_cases halive).1).counts_move halive
      have hone := length_verdictOf h move
      have hsilent := List.count_le_length (a := Verdict.silent) (l := h.verdictOf move)
      have hfailed := List.count_le_length (a := Verdict.failed) (l := h.verdictOf move)
      have hquanta_eq := hcounts.quanta
      have hsilent_eq := hcounts.silent
      have hfailed_eq := hcounts.failed
      obtain ⟨-, -, hq, hsi, hf, -⟩ := ih
      refine ⟨?_, ?_, ?_, ?_, ?_, ?_⟩ <;> omega
    · obtain ⟨hgeneration, hstats⟩ := processor_of_gone hsound halive
      obtain ⟨-, hg, hq, hsi, hf, hd⟩ := ih
      rw [← hgeneration] at hg
      rw [← hstats] at hq hsi hf hd
      exact ⟨by omega, by omega, by omega, by omega, by omega, by omega⟩

/-- The numbers of a session with quanta of `size` samples, after `n` moves in which loads gave the modules
`made`. -/
structure Bounded (h : History α σ) (made : List (Loaded σ)) (size n : Nat) : Prop where
  quantum : h.session.quantum = size
  scratchBytes : h.session.scratchBytes = 4 * size
  /-- the first thing that a module is asked for is a buffer of four bytes for each sample -/
  asked : ∀ m ∈ made, ∃ result, (m.replay h.session.trace).1.getLast? = some (.alloc (4 * size) result)
  /-- and no module is asked for any other, -/
  allocs : ∀ id bytes, .alloc id bytes ∈ h.session.trace → bytes = 4 * size
  /-- or for a step of any other size -/
  steps : ∀ id handle quantum out, .stepped id handle quantum out ∈ h.session.trace → quantum = size
  counters : CountedTo h.session n

theorem bounded_of_threads {s : Session α σ} {waiting : List (LoadOutcome σ)} {made : List (Loaded σ)}
    {size : Nat} (ht : s.Threads waiting made size) {n : Nat} (hcounted : CountedTo s n)
    (deeds : List Deed) : (⟨s, deeds⟩ : History α σ).Bounded made size n := by
  have hfour : size * sampleSize = 4 * size := Nat.mul_comm size 4
  -- a call that was made is among those of the module that it was made of
  have hreplayed {e : Event} (he : e ∈ s.trace) (hcall : e.isCall = true) :
      ∃ (calls : List Call) (state : σ) (call : Call) (next : σ), Threaded size calls ∧
        e.answer? state = some (call, next) ∧ call ∈ calls := by
    obtain ⟨m, hm, hid⟩ := ht.known e (List.mem_filter.mpr ⟨he, hcall⟩)
    obtain ⟨state, call, next, hanswer, hmem⟩ := m.exists_call he hid.symm hcall
    exact ⟨_, state, call, next, ht.threaded m hm, hanswer, hmem⟩
  refine ⟨ht.size, ht.bytes.trans hfour, fun m hm => ?_, fun id bytes he => ?_,
    fun id handle quantum out he => ?_, hcounted⟩
  · rw [← hfour]
    exact (ht.threaded m hm).getLast?_calls
  · obtain ⟨calls, state, call, next, hthreaded, hanswer, hmem⟩ := hreplayed he rfl
    cases hanswer
    exact (hthreaded.size_of_alloc hmem).trans hfour
  · obtain ⟨calls, state, call, next, hthreaded, hanswer, hmem⟩ := hreplayed he rfl
    cases hanswer
    exact hthreaded.size_of_step hmem

/-- A configuration, valid or not, gives no session if four times its quantum is beyond a word or the bytes of a
queue, by its own places, are more than can be asked for. In a session nothing gets too large, whatever happens:
that product is in a word, each module is asked for just so many bytes and then for steps of a quantum, of which
no more samples are read, and each counter needs as many moves as it counts. The same holds within native
modules. -/
theorem numbers_bounded {τ : Type w} [NativeStream τ] (config : Config) :
    ((Session.link? config : Option (Session α σ)).isSome = true ↔
      4 * config.quantumSize.toNat < UInt64.size ∧
        ∀ bytes ∈ Session.queueBytes config, bytes < Queue.maxBytes) ∧
    ∀ s : Session α σ, Session.link? config = some s →
      4 * config.quantumSize.toNat < UInt64.size ∧
      (∀ moves, (History.through ⟨s, []⟩ moves).Bounded (History.made ⟨s, []⟩ moves)
        config.quantumSize.toNat moves.length) ∧
      (∀ channel : List Sample,
        min config.quantumSize.toNat channel.length * sampleSize < UInt64.size) ∧
      ∀ (stream : τ) (calls : List NativeModule.Call),
        ((NativeModule.new stream).after calls).Bounded config.quantumSize.toNat := by
  refine ⟨Session.isSome_link?_iff config, fun s hlink => ?_⟩
  have hsize : 4 * config.quantumSize.toNat < UInt64.size :=
    ((Session.isSome_link?_iff (α := α) (σ := σ) config).mp (by rw [hlink]; rfl)).1
  refine ⟨hsize, fun moves => ?_, fun channel => ?_, fun stream calls => ?_⟩
  · have hthreads := (Kept.link hlink).threads_through (threads_link hlink) moves
    rw [List.append_nil] at hthreads
    exact bounded_of_threads hthreads (countedTo_through hlink moves) _
  · refine Nat.lt_of_le_of_lt ?_ hsize
    rw [Nat.mul_comm 4]
    exact Nat.mul_le_mul_right _ (Nat.min_le_left _ _)
  · refine NativeModule.bounded_of_lt (NativeModule.length_memory_after (Nat.le_refl _) ?_ calls) hsize
    show 8 < UInt32.size
    decide

/-- Two modules of which the first is stepped; and two valid configurations without a session. -/
theorem numbers_bounded_linked :
    let canned : CannedModule := { memory := List.replicate 8 0, alloc := .ok 0, entry := .ok ⟨7⟩, steps := [] }
    let config : Config := {
      quantumSize := 2, controlCapacity := 1, loaderCapacity := 1, eventCapacity := 1 }
    let s : Session Unit CannedModule := {
      quantum := 2, scratchBytes := 8, control := .empty 1, requests := .empty 1, outcomes := .empty 1
      acks := .empty 1, reports := .empty 1 }
    let replace : List (Move Unit CannedModule) := [.turn (.load ()), .turn (.process []),
      .turn (.handle fun _ => .ok canned), .turn (.process [[.zero]])]
    let h := History.through ⟨s, []⟩ (replace ++ replace)
    let wide : Config := { quantumSize := 0x4000000000000000 }
    let roomy : Config := { eventCapacity := 0x200000000000000 }
    Session.link? config = some s ∧ h.Bounded (History.made ⟨s, []⟩ (replace ++ replace)) 2 8 ∧
    h.session.trace.length = 6 ∧ h.session.sent = 2 ∧
    wide.flaw? = none ∧ (Session.link? wide : Option (Session Unit CannedModule)).isSome = false ∧
    roomy.flaw? = none ∧ (Session.link? roomy : Option (Session Unit CannedModule)).isSome = false := by
  intro canned config s replace h wide roomy
  have hlink : Session.link? config = some s := rfl
  exact ⟨hlink, ((numbers_bounded (τ := Constant) config).2 s hlink).2.1 _, by decide +kernel,
    by decide +kernel, by decide, by decide, by decide, by decide⟩

end History

end SampleStream
