import OpenFga.Check.BatchAgreement

/-!
# Batches with a cache

A batch can be answered from the cache as a whole. A decision found there was evaluated for
a request with the same key, hence for the same question; without limits the evaluation
that a check would make now comes to the same decision. So the cache does not change what
a batch reports, and `batch_answers_as_single_checks` compares both ways of evaluating it
with the checks that ask for its items alone.
-/

namespace OpenFga

open List Sample

variable {item : BatchCheckItem} {decisions : List Bool} {alone : Nat → Schedule} {position : Nat}

section Cached

variable (setting : CheckSetting) (cache : DecisionCache)

/-- The decision is that of an evaluation of the request that met no limit. -/
def Evaluated (request : Cache.CheckCommand) (allowed : Bool) : Prop :=
  ∃ selection schedule decision,
    let env := setting.environment (.new request.contextualTuples none) request.conditionContext
    let input : RootInput := ⟨request.storeId, selection, request.tuple⟩
    Unlimited env schedule input ∧ evaluateRoot env schedule input = .ok decision ∧
      decision.allowed = allowed

/-- What is found under the key of a command was put there for some request with this key,
after an evaluation if the request was for the same model. The digests tell the two
requests apart unless they ask the same. -/
def DecisionCache.Sound (command : CheckCommand) : Prop :=
  ∀ lookup allowed, cache.get lookup (cache.key command) = some allowed →
    ∃ asked stored : Cache.DecisionRequest, asked.command = command.identified ∧
      asked.model = cache.identity ∧ asked.evaluatorSemanticsVersion = evaluatorSemanticsVersion ∧
      Cache.Separates cache.sha256 cache.hmac asked stored ∧
      asked.key cache.sha256 cache.hmac = stored.key cache.sha256 cache.hmac ∧
      (stored.model = cache.identity → Evaluated setting stored.command allowed)

variable {setting cache}

section Selection

variable {env : CheckEnvironment} {schedule : Schedule} {storeId storeId' : StoreId}
  {selection selection' : ModelSelection} {tuple : TupleKey}

/-- A valid selection does not enter the evaluation. -/
theorem evaluateRoot_selection
    (valid : validateModelIdentity ⟨storeId, selection, tuple⟩ env.model = .ok ())
    (valid' : validateModelIdentity ⟨storeId', selection', tuple⟩ env.model = .ok ()) :
    evaluateRoot env schedule ⟨storeId, selection, tuple⟩ =
      evaluateRoot env schedule ⟨storeId', selection', tuple⟩ := by
  unfold evaluateRoot
  rw [valid, valid']
  rfl

theorem Unlimited.of_identity (unlimited : Unlimited env schedule ⟨storeId, selection, tuple⟩)
    (valid : validateModelIdentity ⟨storeId, selection, tuple⟩ env.model = .ok ())
    (valid' : validateModelIdentity ⟨storeId', selection', tuple⟩ env.model = .ok ()) :
    Unlimited env schedule ⟨storeId', selection', tuple⟩ := by
  refine ⟨unlimited.produced, fun error failed => unlimited.answered error ?_⟩
  rw [evaluateRoot_selection valid valid']
  exact failed

theorem identity_of_answer {input : RootInput} {decision : Decision}
    (returned : evaluateRoot env schedule input = .ok decision) :
    validateModelIdentity input env.model = .ok () := by
  unfold evaluateRoot at returned
  cases valid : validateModelIdentity input env.model with
  | error error =>
    rw [valid] at returned
    cases returned
  | ok _ => rfl

end Selection

/-- A decision found in the cache is the one that the check comes to. -/
theorem cached_decision_eq {command : CheckCommand} (sound : cache.Sound setting command)
    {lookup : Nat} {allowed : Bool} (found : cache.get lookup (cache.key command) = some allowed)
    {alone : Schedule} (valid : validateModelIdentity command.input setting.model = .ok ())
    (unlimited : Unlimited (command.environment setting) alone command.input) :
    ∃ decision, evaluateRoot (command.environment setting) alone command.input = .ok decision ∧
      decision.allowed = allowed := by
  obtain ⟨asked, stored, commands, models, -, separates, keys, evaluated⟩ :=
    sound lookup allowed found
  have same := Cache.same_of_key_eq separates keys
  obtain ⟨selection, schedule, decision, quiet, returned, decided⟩ :=
    evaluated (same.model.symm.trans models)
  have contexts : setting.environment (.new stored.command.contextualTuples none)
      stored.command.conditionContext = command.environment setting := by
    have contextual := same.contextual
    have context := same.context
    rw [commands] at contextual context
    rw [← context, ← ContextualIndex.new_perm contextual]
    rfl
  have tuples : stored.command.tuple = command.tuple := by
    rw [← same.tuple, commands]
    rfl
  rw [contexts, tuples] at quiet returned
  have valid' := identity_of_answer returned
  refine ⟨decision, ?_, decided⟩
  rw [answers_agree unlimited (quiet.of_identity valid' valid), ← returned]
  exact evaluateRoot_selection valid valid'

variable {command : BatchCheckCommand}

/-- An item with a key has an accepted context, and the key is that of its own check. -/
theorem batchDecisionKey_eq_some {key : Cache.DecisionKey}
    (keyed : batchDecisionKey setting cache command.query item = some key) :
    key = cache.key (command.single item) ∧ command.Accepts setting item := by
  unfold batchDecisionKey at keyed
  split at keyed
  · cases keyed
  · rename_i context accepted
    simp only at keyed
    split at keyed
    · cases keyed
    · rename_i contextual bounded
      cases keyed
      obtain ⟨-, bounded⟩ := guard_eq_ok.mp bounded
      cases bounded
      rw [ConditionContext.new_eq_ok accepted]
      exact ⟨rfl, context, accepted⟩

/-- The decisions found are those found under the keys, one for each. -/
theorem cachedDecisions_eq_some {lookup : Nat} {keys : List (Option Cache.DecisionKey)}
    (found : cachedDecisions cache lookup keys = some decisions) :
    List.Forall₂ (fun key allowed => ∃ known lookup, key = some known ∧
      cache.get lookup known = some allowed) keys decisions := by
  induction keys generalizing lookup decisions with
  | nil =>
    cases found
    exact .nil
  | cons key keys ih =>
    simp only [cachedDecisions, Option.bind_eq_bind, Option.bind_eq_some_iff] at found
    obtain ⟨known, rfl, allowed, held, rest, later, pair⟩ := found
    cases pair
    exact .cons ⟨known, lookup, rfl, held⟩ (ih later)

/-- What the cache gives for the items of a batch. -/
theorem cached_items (found : cachedDecisions cache 0 (command.items.map
      (batchDecisionKey setting cache command.query)) = some decisions) :
    List.Forall₂ (fun item allowed => ∃ lookup,
      cache.get lookup (cache.key (command.single item)) = some allowed ∧
        command.Accepts setting item) command.items decisions := by
  refine (forall₂_map_left_iff.mp (cachedDecisions_eq_some found)).imp ?_
  rintro item allowed ⟨key, lookup, keyed, held⟩
  obtain ⟨rfl, accepted⟩ := batchDecisionKey_eq_some keyed
  exact ⟨lookup, held, accepted⟩

theorem getElem?_cachedResults {items : List BatchCheckItem} {held : BatchCheckItem → Bool → Prop}
    (related : List.Forall₂ held items decisions) (asked : items[position]? = some item) :
    ∃ allowed, held item allowed ∧ (cachedResults items decisions)[position]? =
      some ⟨item.correlationId, .ok (cachedOutcome allowed)⟩ := by
  induction related generalizing position with
  | nil => cases asked
  | cons first rest ih =>
    cases position with
    | zero =>
      cases asked
      exact ⟨_, first, rfl⟩
    | succ position => exact ih asked

/-- A batch answered from the cache is answered like the single checks. -/
theorem cached_answers_iff
    (sound : ∀ item ∈ command.items, cache.Sound setting (command.single item))
    (unlimited : command.Unlimited setting alone)
    (found : cachedDecisions cache 0 (command.items.map
      (batchDecisionKey setting cache command.query)) = some decisions) :
    command.Answers setting alone (cachedResults command.items decisions) ↔
      command.Identified setting ∧ ∀ item ∈ command.items, command.Accepts setting item := by
  have related := cached_items found
  have decided : command.Identified setting → ∀ position item,
      command.items[position]? = some item → ∃ decision,
        evaluateRoot ((command.single item).environment setting) (alone position)
            (command.single item).input = .ok decision ∧
          (cachedResults command.items decisions)[position]? =
            some ⟨item.correlationId, .ok (cachedOutcome decision.allowed)⟩ := by
    intro identified position item asked
    obtain ⟨allowed, ⟨lookup, held, -⟩, placed⟩ := getElem?_cachedResults related asked
    obtain ⟨decision, returned, rfl⟩ := cached_decision_eq
      (sound item (mem_of_getElem? asked)) held identified (unlimited position item asked)
    exact ⟨decision, returned, placed⟩
  constructor
  · intro answers
    have identified : command.Identified setting := by
      -- the first check would fail, while the cache has answered it
      have asked : command.items[0]? = some (command.items.head command.nonempty) := by
        rw [← head?_eq_getElem?, head?_eq_some_head command.nonempty]
      obtain ⟨allowed, -, placed⟩ := getElem?_cachedResults related asked
      have agreed := answers.outcomes 0 _ _ asked placed
      cases valid : validateModelIdentity (command.query.rootInput
          (command.items.head command.nonempty).tuple) setting.model with
      | ok _ => exact valid
      | error error =>
        have failed : check setting (alone 0)
            (command.single (command.items.head command.nonempty)) =
              .error (canonicalizeCheckControlError error) := by
          unfold check evaluateRoot
          change (Except.mapError _ (validateModelIdentity (command.query.rootInput
            (command.items.head command.nonempty).tuple) setting.model >>= _)) = _
          rw [valid]
          rfl
        rw [failed] at agreed
        cases agreed
    refine ⟨identified, fun item member => ?_⟩
    obtain ⟨position, asked⟩ := mem_iff_getElem?.mp member
    obtain ⟨allowed, ⟨lookup, -, accepted⟩, -⟩ := getElem?_cachedResults related asked
    exact accepted
  · rintro ⟨identified, -⟩
    constructor
    · apply ext_getElem?
      intro position
      rw [getElem?_map, getElem?_map]
      cases asked : command.items[position]? with
      | none =>
        rw [getElem?_eq_none_iff] at asked
        rw [getElem?_eq_none]
        · rfl
        · exact (length_zipWith.trans_le (min_le_left _ _)).trans asked
      | some item =>
        obtain ⟨decision, -, placed⟩ := decided identified position item asked
        rw [placed]
        rfl
    · intro position item result asked placed
      obtain ⟨decision, returned, here⟩ := decided identified position item asked
      cases here.symm.trans placed
      rw [check, returned]
      rfl

end Cached

namespace Sample

def readers (readFailure : ObjectRef → RelationName → Option StorageErrorKind) : CheckSetting where
  model := model
  stored := [onPlan "viewer" anne, onPlan "editor" anne]
  readFailure := readFailure
  budget := budget
  batchConcurrency := .of 50
  inputLimits := .standard

def query : QueryContext where
  storeId := ⟨"store"⟩
  modelSelection := .latest
  consistency := .minimizeLatency
  contextualTuples := ⟨[], nodup_nil⟩
  conditionContext := .empty

/-- Asks whether anne views the plan, in a context. -/
def asking (id : String) (context : ConditionContext) : BatchCheckItem :=
  ⟨⟨id⟩, ⟨plan, ⟨"viewer"⟩, anne⟩, ⟨[], nodup_nil⟩, context⟩

def batch (item : BatchCheckItem) : BatchCheckCommand :=
  ⟨query, [item], cons_ne_nil _ _, nodup_singleton _⟩

/-- Asks twice for the same. -/
def twice : BatchCheckCommand :=
  ⟨query, [asking "a" .empty, asking "b" .empty], by decide, by decide⟩

/-- The task at one position finishes first. -/
def finishing (position : Nat) : BatchSchedule :=
  ⟨fun _ => .joined position, fun _ => joining 0⟩

/-- A context with one long text. -/
def noted (length : Nat) : ConditionContext :=
  ⟨[(⟨"note"⟩, .string (String.ofList (replicate length 'a')))], nodup_singleton _⟩

theorem utf8ByteSize_replicate (length : Nat) :
    (String.ofList (replicate length 'a')).utf8ByteSize = length := by
  rw [String.utf8ByteSize_ofList]
  induction length with
  | zero => rfl
  | succ length ih => rw [replicate_succ, String.utf8Len_cons, ih]; rfl

theorem noted_refused :
    ConditionContext.overlay .empty (noted 4097) .standard =
      .error ⟨"context_string", .tooLarge⟩ := by
  have values : (ConditionContext.merged .empty (noted 4097)).toList = (noted 4097).values := rfl
  have few : ¬ InputLimits.standard.contextCollectionItems.get <
      (ConditionContext.merged .empty (noted 4097)).size := by decide
  unfold ConditionContext.overlay ConditionContext.new ConditionContext.newWithPolicy
  rw [if_neg few, values]
  have long : checkValueBytes .standard true "context_string"
      (String.ofList (replicate 4097 'a')).utf8ByteSize =
        .error ⟨"context_string", .tooLarge⟩ := by
    rw [utf8ByteSize_replicate]
    rfl
  simp only [noted, validateParameters, validateContextValue, long]
  rfl

/-- Both items ask the same, in empty contexts. -/
theorem single_twice (asked : item ∈ twice.items) : twice.single item = ⟨query, request.tuple⟩ := by
  have items : item = asking "a" .empty ∨ item = asking "b" .empty := by simpa [twice] using asked
  rcases items with rfl | rfl <;> rfl

theorem twice_accepts (asked : item ∈ twice.items) :
    twice.Accepts (readers fun _ _ => none) item := by
  have items : item = asking "a" .empty ∨ item = asking "b" .empty := by simpa [twice] using asked
  rcases items with rfl | rfl <;> exact ⟨.empty, rfl⟩

theorem twice_unlimited (place : Nat) (either : place = 0 ∨ place = 1) :
    twice.Unlimited (readers fun _ _ => none) fun _ => joining place := by
  intro position item asked
  rw [single_twice (mem_of_getElem? asked)]
  rcases either with rfl | rfl <;> apply edited_unlimited
  · intro s started
    cases started
    decide
  · exact ⟨.allow .intersection, by decide⟩
  · intro s started
    cases started
    decide
  · exact ⟨.allow .intersection, by decide⟩

/-- A digest that only looks at the first bytes. -/
def firstBytes (input : List UInt8) : Fingerprint :=
  ⟨(input ++ replicate 32 0).take 32, by simp⟩

open Cache in
/-- The request that either item makes. -/
def asked : DecisionRequest where
  command := (⟨query, request.tuple⟩ : OpenFga.CheckCommand).identified
  model := ⟨⟨"model"⟩, firstBytes []⟩
  evaluatorSemanticsVersion := evaluatorSemanticsVersion
  store_fits := Cache.Sample.store_fits
  model_fits := Cache.Sample.model_fits
  tuple_fits := show TextFits "document" ∧ TextFits "plan" ∧ TextFits "viewer" ∧ TextFits "user" ∧
    TextFits "anne" by decide
  contextual_fits := ⟨show Addressable 0 by decide, by simp [CheckCommand.identified, query]⟩
  context_fits := ⟨show Addressable 0 by decide,
    by simp [CheckCommand.identified, query, ConditionContext.empty]⟩

open Cache in
/-- A cache that holds one decision. -/
def holding : DecisionCache where
  sha256 := firstBytes
  hmac := firstBytes
  identity := ⟨⟨"model"⟩, firstBytes []⟩
  get _ key := if key = asked.key firstBytes firstBytes then some true else none

open Cache in
theorem asked_separates : Separates firstBytes firstBytes asked asked where
  plain := by
    have separate : ∀ input ∈ asked.hashed firstBytes firstBytes,
        ∀ other ∈ asked.hashed firstBytes firstBytes,
          firstBytes input = firstBytes other → input = other := by decide +kernel
    intro input member other member'
    rw [Set.mem_ofPred_eq, or_self] at member member'
    exact separate input member other member'
  keyed := by
    rw [Set.pair_eq_singleton]
    exact Set.injOn_singleton _ _

theorem holding_sound (member : item ∈ twice.items) :
    holding.Sound (readers fun _ _ => none) (twice.single item) := by
  rw [single_twice member]
  intro lookup allowed found
  have decided : allowed = true := by
    unfold holding at found
    simp only at found
    split at found <;> cases found
    rfl
  subst decided
  refine ⟨asked, asked, rfl, rfl, rfl, asked_separates, rfl, fun _ => ?_⟩
  refine ⟨.latest, joining 0, .allow .intersection, ?_, ?_, rfl⟩
  · have unlimited := twice_unlimited 0 (.inl rfl) 0 (asking "a" .empty) rfl
    rw [single_twice mem_cons_self] at unlimited
    exact unlimited
  · exact show evaluateRoot edited (joining 0) request = _ by decide

end Sample

end OpenFga
