import OpenFga.Lib.Machine
import OpenFga.Cache.Moves

/-!
# What a generation guarantees

Every advance of the watermark makes the entries cached before it useless. The
invariant of this module says what the current generation still vouches for: a value
tagged with it was computed from a changelog at least as long as the one at the last
advance. It holds as long as the watermark does not wrap around.
-/

namespace OpenFga.Cache

open Machine

variable {s t : Shared} {controller : Option ControllerConfig} {site : PermitSite}
  {stage : RequestStage} {request : Request} {entry : Entry}

namespace Shared

variable {sources : Sources}

/-- A value computed from a version of the changelog under a generation is as recent
as the last advance, as long as the generation is current. -/
structure Vouches (s : Shared) (watermark version : Nat) : Prop where
  reached : watermark ≤ s.watermark
  recent : watermark = s.watermark → s.flushed ≤ version

/-- Every entry is vouched for. -/
structure Coherent (s : Shared) : Prop where
  flushed_le : s.flushed ≤ s.log.length
  entries : ∀ key entry, s.entries key = some entry → s.Vouches entry.watermark entry.version

/-- The generations have gone on from one state to another. -/
structure Later (s t : Shared) : Prop where
  flushed : s.flushed ≤ t.flushed
  acknowledged : s.acknowledged ≤ t.acknowledged
  log : s.log.length ≤ t.log.length
  watermark : (t.watermark = s.watermark ∧ t.flushed = s.flushed) ∨ s.watermark < t.watermark

/-- The next advance does not wrap around. -/
def Bounded (s : Shared) : Prop := s.watermark + 1 < 2 ^ 64

theorem advance_watermark (bounded : s.Bounded) : s.advance.watermark = s.watermark + 1 :=
  Nat.mod_eq_of_lt bounded

theorem Later.watermark_le (later : s.Later t) : s.watermark ≤ t.watermark := by
  obtain ⟨same, -⟩ | less := later.watermark
  · exact same.ge
  · exact less.le

theorem Vouches.later {watermark version : Nat} (vouches : s.Vouches watermark version)
    (later : s.Later t) : t.Vouches watermark version := by
  obtain ⟨same, flushed⟩ | less := later.watermark
  · refine ⟨vouches.reached.trans same.ge, ?_⟩
    intro current
    rw [flushed]
    exact vouches.recent (current.trans same)
  · have passed : watermark < t.watermark := vouches.reached.trans_lt less
    exact ⟨passed.le, fun current => absurd current passed.ne⟩

theorem Move.later (move : Move s sources t) (flushed : s.flushed ≤ s.log.length)
    (bounded : s.Bounded) : s.Later t ∧ t.flushed ≤ t.log.length := by
  cases move with
  | control control =>
    cases control with
    | frame => exact ⟨⟨le_rfl, le_rfl, le_rfl, .inl ⟨rfl, rfl⟩⟩, flushed⟩
    | advance =>
      refine ⟨⟨flushed, le_rfl, le_rfl, .inr ?_⟩, le_rfl⟩
      rw [advance_watermark bounded]
      exact Nat.lt_succ_self _
  | tick | evict | cache => exact ⟨⟨le_rfl, le_rfl, le_rfl, .inl ⟨rfl, rfl⟩⟩, flushed⟩
  | commit store ids continues =>
    have longer : s.log.length ≤ (s.commit store ids).log.length := by
      simp [Shared.commit]
    exact ⟨⟨le_rfl, le_rfl, longer, .inl ⟨rfl, rfl⟩⟩, flushed.trans longer⟩
  | acknowledge version =>
    exact ⟨⟨le_rfl, le_max_left _ _, le_rfl, .inl ⟨rfl, rfl⟩⟩, flushed⟩

end Shared

open Shared

/-- What a request knows of its own computation where it asks for permission. -/
def PermitSite.Sound (s : Shared) : PermitSite → Prop
  | .lookup | .inserted | .hit _ => True
  | .eligible started version | .insert started version => s.Vouches started version

def RequestStage.Sound (s : Shared) : RequestStage → Prop
  | .track _ | .before | .entry _ | .start | .finished | .hit _ => True
  | .permit site _ => site.Sound s
  | .after _ found => ∀ e, found = some e → s.Vouches e.watermark e.version
  | .compute started => started ≤ s.watermark
  | .compare started version | .insert started version => s.Vouches started version

theorem PermitSite.Sound.later (sound : site.Sound s) (later : s.Later t) : site.Sound t := by
  cases site with
  | eligible | insert => exact Vouches.later sound later
  | _ => trivial

theorem RequestStage.Sound.later (sound : stage.Sound s) (later : s.Later t) : stage.Sound t := by
  cases stage with
  | permit => exact PermitSite.Sound.later sound later
  | after => exact fun e found => (sound e found).later later
  | compute started => exact le_trans sound later.watermark_le
  | compare | insert => exact Vouches.later sound later
  | _ => trivial

theorem PermitSite.Sound.resume (sound : site.Sound s) (permitted : Bool) :
    (site.resume permitted).Sound s := by
  cases site <;> cases permitted <;> first | exact sound | trivial

theorem PermitSite.Sound.ask (sound : site.Sound s) : (site.ask controller).Sound s := by
  cases controller with
  | none => exact sound.resume true
  | some config => exact sound

theorem PermitSite.Sound.answer (sound : site.Sound s) (answer : Bool ⊕ PermitStage) :
    (site.answer answer).Sound s := by
  cases answer with
  | inl permitted => exact sound.resume permitted
  | inr stage => exact sound

theorem RequestStage.tracked_sound (rest : Option TrackStage) :
    (RequestStage.tracked controller rest).Sound s := by
  cases rest with
  | none =>
    have sound : PermitSite.lookup.Sound s := trivial
    exact sound.ask
  | some stage => trivial

/-- One step of a request keeps what the generations vouch for. -/
theorem RequestCode.sound {next : RequestStage}
    (code : RequestCode controller request s stage t next)
    (coherent : s.Coherent) (sound : stage.Sound s) (later : s.Later t) : next.Sound t := by
  have computed : ∀ {started}, started ≤ s.watermark → s.Vouches started s.log.length :=
    fun behind => ⟨behind, fun _ => coherent.flushed_le⟩
  cases code with
  | track => exact RequestStage.tracked_sound _
  | permit => exact (PermitSite.Sound.later sound later).answer _
  | entry => exact coherent.entries request.key
  | @hit before entry =>
    have free : (PermitSite.hit entry).Sound s := trivial
    exact free.ask
  | start => exact le_refl s.watermark
  | decided => exact computed sound
  | read => exact PermitSite.Sound.ask (computed sound)
  | current => exact PermitSite.Sound.ask sound
  | @insert started version next last =>
    have free : PermitSite.inserted.Sound
        { s with entries := Function.update s.entries request.key (some ⟨version, started⟩) } :=
      trivial
    obtain rfl | rfl := last
    · exact free.ask
    · trivial
  | before | miss | outdated => trivial

/-- The entry a request is about to be answered from, or is answered from. -/
def RequestStage.serving : RequestStage → Option Entry
  | .permit (.hit found) _ | .hit found => some found
  | _ => none

theorem PermitSite.serving_resume {permitted : Bool}
    (serving : (site.resume permitted).serving = some entry) : site = .hit entry := by
  cases site <;> cases permitted <;> cases serving
  rfl

theorem PermitSite.serving_ask (serving : (site.ask controller).serving = some entry) :
    site = .hit entry := by
  cases controller with
  | none => exact PermitSite.serving_resume serving
  | some config =>
    cases site <;> cases serving
    rfl

/-- A request takes an entry right after it has read the watermark a second time; the
entry is then as recent as the last advance. -/
theorem RequestCode.serving {next : RequestStage}
    (code : RequestCode controller request s stage t next)
    (sound : stage.Sound s) (serving : next.serving = some entry) :
    stage.serving = some entry ∨
      (s.flushed ≤ entry.version ∧ t = s ∧ ∃ before, stage = .after before (some entry)) := by
  cases code with
  | @track _ _ _ rest =>
    cases rest with
    | none => cases PermitSite.serving_ask serving
    | some rest => cases serving
  | @permit _ _ answer site =>
    have same : site = .hit entry := by
      cases answer with
      | inl permitted => exact PermitSite.serving_resume serving
      | inr rest =>
        cases site <;> cases serving
        rfl
    rw [same]
    exact .inl rfl
  | @hit before found unchanged current =>
    cases PermitSite.serving_ask serving
    exact .inr ⟨(sound entry rfl).recent current, rfl, before, rfl⟩
  | read | current => cases PermitSite.serving_ask serving
  | insert last =>
    obtain rfl | rfl := last
    · cases PermitSite.serving_ask serving
    · cases serving
  | _ => cases serving

namespace World

variable {w w' : World} {action : Action}

structure Sound (w : World) : Prop where
  coherent : w.shared.Coherent
  requests : ∀ request stage, .request request stage ∈ w.threads → stage.Sound w.shared

theorem start_sound (clock : Nat) (log : List Change) : (start controller clock log).Sound where
  coherent := ⟨le_rfl, fun _ _ found => nomatch found⟩
  requests := fun _ _ running => nomatch running

theorem spawnRequest_stage {key : CacheKey}
    (fresh : .request request stage = w.spawnRequest controller key) :
    request = ⟨key, w.shared.clock, w.shared.acknowledged⟩ ∧
      (stage = .track .lookup ∨ stage = .before) := by
  cases fresh
  refine ⟨rfl, ?_⟩
  split
  · exact .inl rfl
  · exact .inr rfl

theorem Sound.step (sound : w.Sound) (bounded : w.shared.Bounded)
    (moved : w.step controller action = some w') : w.shared.Later w'.shared ∧ w'.Sound := by
  obtain ⟨later, flushed⟩ := (step_move moved).later sound.coherent.flushed_le bounded
  refine ⟨later, ⟨flushed, ?_⟩, ?_⟩
  · intro key entry cached
    obtain before | ⟨request, -, inserting⟩ := (step_move moved).entries cached
    · exact (sound.coherent.entries key entry before).later later
    · have vouched : w.shared.Vouches entry.watermark entry.version :=
        sound.requests request _ inserting
      exact vouched.later later
  · intro request stage running
    obtain before | ⟨key, fresh, -⟩ | ⟨earlier, before, code⟩ := step_requests moved running
    · exact (sound.requests request stage before).later later
    · obtain rfl | rfl := (spawnRequest_stage fresh).2 <;> trivial
    · exact code.sound sound.coherent (sound.requests request earlier before) later

variable {meets : World → Action → Prop}

/-- A request stays the same request until it is dropped. -/
theorem reaches_request {index : Nat} (reached : Reaches (step controller) meets w w')
    (begun : w.threads[index]? = some (.request request stage)) :
    (∃ stage, w'.threads[index]? = some (.request request stage)) ∨
      w'.threads[index]? = some .dropped := by
  apply reached.invariant fun w => (∃ stage, w.threads[index]? = some (.request request stage)) ∨
    w.threads[index]? = some .dropped
  · intro t action u held met moved
    obtain ⟨stage, running⟩ | dropped := held
    · obtain same | ⟨-, dropped⟩ | ⟨ids, next, stepped, after⟩ := step_thread moved running
      · exact .inl ⟨stage, same⟩
      · exact .inr dropped
      · obtain ⟨⟨s, stage'⟩, -, same⟩ := Option.map_eq_some_iff.mp stepped
        cases same
        exact .inl ⟨stage', after⟩
    · obtain same | ⟨awaiting, -⟩ | ⟨ids, next, stepped, -⟩ := step_thread moved dropped
      · exact .inr same
      · cases awaiting
      · cases stepped
  · exact .inl ⟨stage, begun⟩

end World

end OpenFga.Cache
