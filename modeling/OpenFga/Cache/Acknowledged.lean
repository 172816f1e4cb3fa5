import OpenFga.Cache.Generations

/-!
# Writes before requests

A write that changes something advances the watermark before it returns, so its changes
are in every value a later request may take from a cache. A write that changes nothing
returns without an advance. Then the argument needs that nobody else's change is still
waiting for one.
-/

namespace OpenFga.Cache

open Machine Option

variable {controller : Option ControllerConfig}

/-- What a write has reached. -/
def WriteStage.Sound (s : Shared) : WriteStage → Prop
  | .track _ | .storage | .finished => True
  | .advance version => version ≤ s.log.length
  | .acknowledge version => version ≤ s.flushed

/-- A write that changes nothing finds every committed change followed by an advance. -/
def WriteSettled (s : Shared) (ids : List Nat) (stage : WriteStage) : Prop :=
  stage = .storage → ids = [] → s.log.length ≤ s.flushed

section Stages

variable {s t : Shared}

theorem WriteStage.Sound.later {stage : WriteStage} (sound : stage.Sound s) (later : s.Later t) :
    stage.Sound t := by
  cases stage with
  | advance => exact le_trans sound later.log
  | acknowledge => exact le_trans sound later.flushed
  | _ => trivial

theorem writeStep_sound {store : StoreId} {ids : List Nat} {stage next : WriteStage}
    (settled : WriteSettled s ids stage) (sound : stage.Sound s)
    (moved : writeStep controller store ids s stage = some (t, next)) : next.Sound t := by
  cases stage with
  | track stage =>
    obtain ⟨config, known, moved⟩ := bind_eq_some_iff.mp moved
    cases moved
    change (WriteStage.tracked (trackStep config store s stage).2).Sound _
    cases (trackStep config store s stage).2 <;> trivial
  | storage =>
    obtain ⟨-, moved⟩ := ite_none_right_eq_some.mp moved
    cases moved
    cases ids with
    | nil =>
      have unchanged : (s.commit store []).log.length = s.log.length := by
        simp [Shared.commit]
      exact unchanged.le.trans (settled rfl rfl)
    | cons id ids => exact le_refl (s.commit store (id :: ids)).log.length
  | advance version =>
    cases moved
    exact sound
  | acknowledge version =>
    cases moved
    trivial
  | finished => cases moved

end Stages

namespace World

variable {w w' : World} {action : Action}

/-- A write that changes nothing is applied only when no change waits for an advance. -/
def settled (w : World) : Action → Bool
  | .thread index [] =>
      match w.threads[index]? with
      | some (.write _ .storage) => decide (w.shared.log.length ≤ w.shared.flushed)
      | none | _ => true
  | _ => true

/-- The condition on a step: writes are settled, and the watermark does not wrap. -/
def Settled (w : World) (action : Action) : Prop :=
  w.settled action = true ∧ w.shared.watermark + 1 < 2 ^ 64

theorem Settled.write {index : Nat} {ids : List Nat} {store : StoreId} {stage : WriteStage}
    (settled : w.Settled (.thread index ids))
    (running : w.threads[index]? = some (.write store stage)) :
    WriteSettled w.shared ids stage := by
  intro storing unchanged
  subst storing unchanged
  have decided := settled.1
  simp only [World.settled, running] at decided
  exact of_decide_eq_true decided

/-- What is acknowledged is behind the last advance, and in every entry that answers a
request begun after the acknowledgement. -/
structure Acknowledges (w : World) : Prop where
  sound : w.Sound
  behind : w.shared.acknowledged ≤ w.shared.flushed
  requests : ∀ request stage, .request request stage ∈ w.threads →
    request.since ≤ w.shared.acknowledged ∧
      ∀ entry, stage.serving = some entry → request.since ≤ entry.version
  writes : ∀ store stage, .write store stage ∈ w.threads → stage.Sound w.shared

theorem start_acknowledges (clock : Nat) (log : List Change) :
    (start controller clock log).Acknowledges where
  sound := start_sound clock log
  behind := Nat.zero_le _
  requests := fun _ _ running => nomatch running
  writes := fun _ _ running => nomatch running

theorem Acknowledges.behind_step (acknowledges : w.Acknowledges)
    (later : w.shared.Later w'.shared) (moved : w.step controller action = some w') :
    w'.shared.acknowledged ≤ w'.shared.flushed := by
  obtain same | ⟨version, ⟨store, returning⟩, same⟩ := (step_move moved).acknowledged
  · rw [same]
    exact acknowledges.behind.trans later.flushed
  · have held : version ≤ w.shared.flushed := acknowledges.writes store _ returning
    rw [same]
    exact (max_le acknowledges.behind held).trans later.flushed

theorem Acknowledges.step (acknowledges : w.Acknowledges) (settled : w.Settled action)
    (moved : w.step controller action = some w') : w.shared.Later w'.shared ∧ w'.Acknowledges := by
  obtain ⟨later, sound⟩ := acknowledges.sound.step settled.2 moved
  refine ⟨later, sound, acknowledges.behind_step later moved, ?_, ?_⟩
  · intro request stage running
    obtain before | ⟨key, fresh, -⟩ | ⟨earlier, before, code⟩ := step_requests moved running
    · obtain ⟨since, served⟩ := acknowledges.requests request stage before
      exact ⟨since.trans later.acknowledged, served⟩
    · obtain ⟨rfl, start⟩ := spawnRequest_stage fresh
      refine ⟨later.acknowledged, ?_⟩
      intro entry serving
      obtain rfl | rfl := start <;> cases serving
    · obtain ⟨since, served⟩ := acknowledges.requests request earlier before
      refine ⟨since.trans later.acknowledged, ?_⟩
      intro entry serving
      obtain already | ⟨recent, -⟩ :=
        code.serving (acknowledges.sound.requests request earlier before) serving
      · exact served entry already
      · exact (since.trans acknowledges.behind).trans recent
  · intro store stage running
    obtain before | gone | ⟨key, fresh, -⟩ | ⟨store, fresh⟩ |
      ⟨index, ids, old, rfl, found, stepped⟩ := step_threads moved running
    · exact (acknowledges.writes store stage before).later later
    · cases gone
    · cases fresh
    · cases fresh
      split <;> trivial
    · obtain ⟨earlier, rfl, went⟩ := Thread.step_write stepped
      have held := acknowledges.writes _ _ (List.mem_of_getElem? found)
      exact writeStep_sound (settled.write found) held went

/-- Beginning a request changes nothing else. -/
theorem Acknowledges.request (acknowledges : w.Acknowledges) (key : CacheKey) :
    World.Acknowledges { w with threads := w.threads ++ [w.spawnRequest controller key] } := by
  have fresh : ∀ {thread : Thread}, thread ∈ w.threads ++ [w.spawnRequest controller key] →
      thread ∈ w.threads ∨ thread = w.spawnRequest controller key := by
    intro thread running
    exact (List.mem_append.mp running).imp_right List.mem_singleton.mp
  refine ⟨⟨acknowledges.sound.coherent, ?_⟩, acknowledges.behind, ?_, ?_⟩
  · intro request stage running
    obtain before | spawned := fresh running
    · exact acknowledges.sound.requests request stage before
    · obtain rfl | rfl := (spawnRequest_stage spawned).2 <;> trivial
  · intro request stage running
    obtain before | spawned := fresh running
    · exact acknowledges.requests request stage before
    · obtain ⟨rfl, start⟩ := spawnRequest_stage spawned
      refine ⟨le_refl w.shared.acknowledged, ?_⟩
      intro entry serving
      obtain rfl | rfl := start <;> cases serving
  · intro store stage running
    obtain before | spawned := fresh running
    · exact acknowledges.writes store stage before
    · cases spawned

theorem reaches_acknowledges (reached : Reaches (step controller) Settled w w')
    (acknowledges : w.Acknowledges) : w'.Acknowledges :=
  reached.invariant Acknowledges (fun _ _ _ held met moved => (held.step met moved).2) acknowledges

/-- A write that stands before its return is acknowledged when it has returned. -/
theorem reaches_acknowledged {index version : Nat} {store : StoreId}
    (reached : Reaches (step controller) Settled w w') (acknowledges : w.Acknowledges)
    (returning : w.threads[index]? = some (.write store (.acknowledge version))) :
    w'.threads[index]? = some (.write store (.acknowledge version)) ∨
      version ≤ w'.shared.acknowledged := by
  have held := reached.invariant (fun w => w.Acknowledges ∧
    (w.threads[index]? = some (.write store (.acknowledge version)) ∨
      version ≤ w.shared.acknowledged)) ?_ ⟨acknowledges, .inl returning⟩
  · exact held.2
  · intro t action u held met moved
    obtain ⟨acknowledges, held⟩ := held
    obtain ⟨later, kept⟩ := acknowledges.step met moved
    refine ⟨kept, ?_⟩
    obtain running | known := held
    · obtain same | ⟨awaiting, -⟩ | ⟨ids, next, stepped, -⟩ := step_thread moved running
      · exact .inl same
      · cases awaiting
      · simp only [Thread.step, writeStep, map_some, some.injEq,
          Prod.mk.injEq] at stepped
        rw [← stepped.1]
        exact .inr (le_max_right _ _)
    · exact .inr (known.trans later.acknowledged)

/-- A write returns, a request begins after that, and the request is answered from a
cache. -/
def ServedAfterWrite (controller : Option ControllerConfig) (meets : World → Action → Prop)
    (first last : World) (version : Nat) (entry : Entry) : Prop :=
  ∃ (applied returned begun : World) (index : Nat) (store : StoreId) (key : CacheKey)
    (request : Request),
    Reaches (step controller) meets first applied ∧
    applied.threads[index]? = some (.write store (.acknowledge version)) ∧
    Reaches (step controller) meets applied returned ∧
    returned.threads[index]? = some (.write store .finished) ∧
    returned.step controller (.request key) = some begun ∧
    Reaches (step controller) meets begun last ∧
    last.threads[returned.threads.length]? = some (.request request (.hit entry))

end World

open World

/-- When writes that change nothing are settled, a request that begins after a write
has returned is never answered from an entry computed before that write. -/
theorem hits_after_write_include_it (controller : Option ControllerConfig) (clock : Nat)
    (log : List Change) (last : World) (version : Nat) (entry : Entry)
    (served : ServedAfterWrite controller Settled (.start controller clock log) last
      version entry) :
    version ≤ entry.version := by
  obtain ⟨applied, returned, begun, index, store, key, request, toApplied, returning, toReturned,
    finished, spawned, toLast, hit⟩ := served
  have atApplied := reaches_acknowledges toApplied (start_acknowledges clock log)
  have atReturned := reaches_acknowledges toReturned atApplied
  have acknowledged : version ≤ returned.shared.acknowledged := by
    obtain still | known := reaches_acknowledged toReturned atApplied returning
    · rw [finished] at still
      cases still
    · exact known
  cases spawned
  -- The request remembers what was acknowledged when it began.
  have started : (returned.threads ++ [returned.spawnRequest controller key])[
      returned.threads.length]? = some (returned.spawnRequest controller key) := by
    simp
  have same : request.since = returned.shared.acknowledged := by
    obtain ⟨stage, running⟩ | dropped := reaches_request toLast started
    · rw [hit] at running
      cases running
      rfl
    · rw [hit] at dropped
      cases dropped
  have atLast := reaches_acknowledges toLast (atReturned.request key)
  have held := (atLast.requests request _ (List.mem_of_getElem? hit)).2 entry rfl
  exact (acknowledged.trans same.ge).trans held

namespace Sample

/-- A request of a process without a controller computes its decision and caches it. -/
def caching (index : Nat) : List Action :=
  .request decision :: steps index 7 []

def checkSettled (w : World) (action : Action) : Bool :=
  w.settled action && decide (w.shared.watermark + 1 < 2 ^ 64)

theorem checkSettled_sound (w : World) (action : Action) (passed : checkSettled w action = true) :
    w.Settled action := by
  have both := Bool.and_eq_true_iff.mp passed
  exact ⟨both.1, of_decide_eq_true both.2⟩

/-- A write stands before its return, and then it has returned and a request has
computed and cached its decision. -/
def applied : World :=
  final (step none) checkSettled (.start none 0 [])
    (caching 0 ++ .write store :: steps 1 2 [7])

def returned : World :=
  final (step none) checkSettled applied (steps 1 1 [] ++ caching 2)

def begun : World :=
  final (step none) checkSettled returned [.request decision]

def served : World :=
  final (step none) checkSettled begun (steps 3 3 [])

/-- A change is committed and not followed by an advance when a write that changes
nothing returns. -/
def unchanged : World :=
  final (step none) (fun _ _ => true) (.start none 0 [])
    (caching 0 ++ .write store :: steps 1 1 [7] ++ .write store :: steps 2 1 [])

def overtaken : World :=
  final (step none) (fun _ _ => true) unchanged (steps 2 1 [])

def asked : World :=
  final (step none) (fun _ _ => true) overtaken [.request decision]

def stale : World :=
  final (step none) (fun _ _ => true) asked (steps 3 3 [])

end Sample

open Cache.Sample in
/-- A write returns, another request caches its decision and a third is answered by it. -/
theorem hits_after_write_include_it_cached :
    ServedAfterWrite none Settled (.start none 0 []) served 1 ⟨1, 1⟩ ∧
    1 ≤ (⟨1, 1⟩ : Entry).version := by
  have shown : ServedAfterWrite none Settled (.start none 0 []) served 1 ⟨1, 1⟩ :=
    ⟨applied, returned, begun, 1, store, decision, ⟨decision, 0, 1⟩,
      reaches_final checkSettled checkSettled_sound _ rfl, rfl,
      reaches_final checkSettled checkSettled_sound _ rfl, rfl, rfl,
      reaches_final checkSettled checkSettled_sound _ rfl, rfl⟩
  exact ⟨shown, hits_after_write_include_it none 0 [] served 1 ⟨1, 1⟩ shown⟩

open Cache.Sample in
/-- A write that changes nothing returns between the commit and the advance of another
one, and the request after it is answered from an entry older than both. -/
theorem unchanged_write_leaves_stale_hit :
    ServedAfterWrite none (fun _ _ => True) (.start none 0 []) stale 1 ⟨0, 0⟩ ∧
      ¬ 1 ≤ (⟨0, 0⟩ : Entry).version := by
  refine ⟨⟨unchanged, overtaken, asked, 2, store, decision, ⟨decision, 0, 1⟩, ?_⟩,
    Nat.not_succ_le_zero 0⟩
  exact ⟨reaches_final_any _ rfl, rfl, reaches_final_any _ rfl, rfl, rfl,
    reaches_final_any _ rfl, rfl⟩

end OpenFga.Cache
