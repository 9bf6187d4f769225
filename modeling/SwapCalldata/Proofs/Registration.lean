import SwapCalldata.Registry
import SwapCalldata.Proofs.Outcome

/-!
How registries come about. Whatever is registered or bound in turn, the first encoder registered for
a family stays, and a refused step changes nothing. A draft builds exactly when it names no family
twice, and then the order of its families and the place of its chain do not matter.
-/
namespace SwapCalldata

namespace Registry

/-- A step in setting up a registry. -/
inductive Step (κ : Type) where
  | register (family : PoolFamily) (encoder : κ)
  | bind (chainId : UInt64)

variable {κ ε : Type}

def Step.entry? : Step κ → Option (PoolFamily × κ)
  | register family encoder => some (family, encoder)
  | bind _ => none

def Step.chain? : Step κ → Option UInt64
  | register _ _ => none
  | bind chainId => some chainId

/-- The families of steps with their encoders, in order. -/
def entries (steps : List (Step κ)) : List (PoolFamily × κ) := steps.filterMap Step.entry?

/-- The chain that steps bind last. -/
def lastChain? (steps : List (Step κ)) : Option UInt64 := (steps.filterMap Step.chain?).getLast?

/-- The registry after a step, unchanged where it is refused. -/
def step (registry : Registry κ) : Step κ → Registry κ
  | .register family encoder =>
    match registry.register family encoder with
    | .ok next => next
    | .error _ => registry
  | .bind chainId => registry.withChain chainId

def run (registry : Registry κ) (steps : List (Step κ)) : Registry κ := steps.foldl step registry

/-- The registry with encoders for the families that had none, the first of each. -/
def extend (registry : Registry κ) (entries : List (PoolFamily × κ)) : Registry κ :=
  { registry with
    encoderFor := fun family => (registry.encoderFor family).or (entries.lookup family) }

variable {registry next start : Registry κ} {family other : PoolFamily} {encoder : κ}
  {error : RegistryError} {steps : List (Step κ)} {added : List (PoolFamily × κ)}

theorem mem_families_iff : family ∈ registry.families ↔ registry.encoderFor family ≠ none := by
  unfold families isRegistered
  simp [PoolFamily.mem_all, Option.isSome_iff_ne_none]

theorem encoderFor_eq_none_iff : registry.encoderFor family = none ↔ family ∉ registry.families :=
  (mem_families_iff.not.trans not_not).symm

theorem families_pairwise (registry : Registry κ) :
    registry.families.Pairwise fun a b => a.tag < b.tag := by
  have hall : PoolFamily.all.Pairwise fun a b => a.tag < b.tag := by decide
  exact hall.filter _

theorem extend_nil (registry : Registry κ) : registry.extend [] = registry := by
  simp [extend]

theorem encoderFor_extend_singleton (registry : Registry κ) (family : PoolFamily) (encoder : κ)
    (other : PoolFamily) :
    (registry.extend [(family, encoder)]).encoderFor other =
      (registry.encoderFor other).or (if other = family then some encoder else none) := by
  unfold extend
  dsimp only
  rw [List.lookup_cons, List.lookup_nil]
  by_cases hother : other = family
  · simp [hother]
  · simp [hother, beq_eq_false_iff_ne.mpr hother]

theorem extend_extend (registry : Registry κ) (added more : List (PoolFamily × κ)) :
    (registry.extend added).extend more = registry.extend (added ++ more) := by
  unfold extend
  simp only [List.lookup_append, Option.or_assoc]

theorem register_of_mem (h : family ∈ registry.families) (encoder : κ) :
    registry.register family encoder = .error (.duplicateFamily family) := by
  have hregistered : registry.isRegistered family = true :=
    Option.isSome_iff_ne_none.mpr (mem_families_iff.mp h)
  exact if_pos hregistered

theorem register_of_notMem (h : family ∉ registry.families) (encoder : κ) :
    registry.register family encoder = .ok (registry.extend [(family, encoder)]) := by
  have hnone := encoderFor_eq_none_iff.mpr h
  have hfree : ¬registry.isRegistered family = true := by
    unfold isRegistered
    rw [hnone]
    exact Bool.false_ne_true
  unfold register
  rw [if_neg hfree]
  congr 2
  funext other
  show _ = (registry.extend [(family, encoder)]).encoderFor other
  rw [encoderFor_extend_singleton]
  by_cases hother : other = family
  · rw [if_pos hother, if_pos hother, hother, hnone, Option.none_or]
  · rw [if_neg hother, if_neg hother, Option.or_none]

theorem register_eq_error_iff : registry.register family encoder = .error error ↔
    family ∈ registry.families ∧ error = .duplicateFamily family := by
  by_cases h : family ∈ registry.families
  · rw [register_of_mem h, Except.error.injEq, and_iff_right h]
    exact eq_comm
  · simp [register_of_notMem h, h]

theorem register_eq_ok_iff : registry.register family encoder = .ok next ↔
    family ∉ registry.families ∧ next = registry.extend [(family, encoder)] := by
  by_cases h : family ∈ registry.families
  · simp [register_of_mem h, h]
  · rw [register_of_notMem h, Except.ok.injEq, and_iff_right h]
    exact eq_comm

/-- A family that has an encoder keeps it. -/
theorem extend_of_mem (h : family ∈ registry.families) (encoder : κ) :
    registry.extend [(family, encoder)] = registry := by
  have hsame : (registry.extend [(family, encoder)]).encoderFor = registry.encoderFor := by
    funext other
    rw [encoderFor_extend_singleton]
    by_cases hother : other = family
    · obtain ⟨found, hfound⟩ := Option.ne_none_iff_exists'.mp (mem_families_iff.mp h)
      rw [hother, hfound, Option.some_or]
    · rw [if_neg hother, Option.or_none]
  exact congrArg (fun encoderFor => { registry with encoderFor := encoderFor }) hsame

theorem step_register (registry : Registry κ) (family : PoolFamily) (encoder : κ) :
    registry.step (.register family encoder) = registry.extend [(family, encoder)] := by
  by_cases h : family ∈ registry.families
  · rw [step, register_of_mem h, extend_of_mem h]
  · rw [step, register_of_notMem h]

theorem mem_families_extend : family ∈ (registry.extend added).families ↔
    family ∈ registry.families ∨ family ∈ added.map Prod.fst := by
  rw [mem_families_iff, mem_families_iff, extend, ne_eq, Option.or_eq_none_iff,
    Outcome.lookup_eq_none_iff, Classical.not_and_iff_not_or_not, not_not]

theorem mem_families_extend_singleton : other ∈ (registry.extend [(family, encoder)]).families ↔
    other ∈ registry.families ∨ other = family := by
  rw [mem_families_extend, List.map_singleton, List.mem_singleton]

/-- A chain counts where no later step binds another. -/
theorem lastChain?_bind_cons (chainId : UInt64) (rest : List (Step κ)) :
    lastChain? (.bind chainId :: rest) = (lastChain? rest).or (some chainId) := by
  show (chainId :: rest.filterMap Step.chain?).getLast? = (rest.filterMap Step.chain?).getLast?.or _
  rw [List.getLast?_cons]
  cases (rest.filterMap Step.chain?).getLast? <;> rfl

/-- A run is a matter of the first encoder for each family and of the last chain. -/
theorem run_eq (start : Registry κ) (steps : List (Step κ)) : start.run steps =
    { start.extend (entries steps) with
      chainId := (lastChain? steps).or start.chainId } := by
  induction steps generalizing start with
  | nil => simp [run, entries, lastChain?, extend]
  | cons first rest ih =>
    show (start.step first).run rest = _
    rw [ih]
    cases first with
    | register family encoder =>
      rw [step_register, extend_extend]
      rfl
    | bind chainId =>
      rw [lastChain?_bind_cons, Option.or_assoc]
      rfl

theorem run_append (start : Registry κ) (steps more : List (Step κ)) :
    start.run (steps ++ more) = (start.run steps).run more := List.foldl_append

theorem mem_families_step_iff {first : Step κ} : family ∈ (start.step first).families ↔
    family ∈ start.families ∨ ∃ encoder next, first = .register family encoder ∧
      start.register family encoder = .ok next := by
  cases first with
  | bind chainId =>
    rw [or_iff_left (by simp)]
    exact Iff.rfl
  | register added encoder =>
    rw [step_register, mem_families_extend_singleton]
    by_cases hstart : family ∈ start.families
    · exact iff_of_true (Or.inl hstart) (Or.inl hstart)
    rw [or_iff_right hstart, or_iff_right hstart]
    constructor
    · rintro rfl
      exact ⟨encoder, _, rfl, register_of_notMem hstart encoder⟩
    · rintro ⟨_, _, hsame, _⟩
      cases hsame
      rfl

/-- A family has an encoder after a run if it had one before or a step of the run registered it. -/
theorem mem_families_run_iff : family ∈ (start.run steps).families ↔
    family ∈ start.families ∨ ∃ k encoder next, steps[k]? = some (.register family encoder) ∧
      (start.run (steps.take k)).register family encoder = .ok next := by
  induction steps generalizing start with
  | nil => simp [run]
  | cons first rest ih =>
    show family ∈ ((start.step first).run rest).families ↔ _
    rw [ih, mem_families_step_iff, or_assoc]
    refine or_congr_right ⟨?_, ?_⟩
    · rintro (⟨encoder, next, rfl, hregister⟩ | ⟨k, encoder, next, hstep, hregister⟩)
      · exact ⟨0, encoder, next, rfl, hregister⟩
      · exact ⟨k + 1, encoder, next, hstep, hregister⟩
    · rintro ⟨k, encoder, next, hstep, hregister⟩
      cases k with
      | zero => exact Or.inl ⟨encoder, next, Option.some.inj hstep, hregister⟩
      | succ k => exact Or.inr ⟨k, encoder, next, hstep, hregister⟩

/-- The first encoder of a family is never replaced. -/
theorem encoderFor_run_of_take {k : Nat}
    (h : (start.run (steps.take k)).encoderFor family = some encoder) :
    (start.run steps).encoderFor family = some encoder := by
  rw [← List.take_append_drop k steps, run_append, run_eq]
  exact congrArg (Option.or · _) h

theorem resolve_extend_singleton [Constructor κ ε] (h : family ∉ registry.families) (encoder : κ)
    (pool : Pool) : (registry.extend [(family, encoder)]).resolve pool =
      if pool.family = family then Constructor.construct (registry.describe pool) encoder
      else registry.resolve pool := by
  unfold resolve
  rw [encoderFor_extend_singleton]
  by_cases hfamily : pool.family = family
  · rw [if_pos hfamily, if_pos hfamily, hfamily, encoderFor_eq_none_iff.mpr h, Option.none_or]
    rfl
  · rw [if_neg hfamily, if_neg hfamily, Option.or_none]
    rfl

/-- What registering a family does: a known family is refused and nothing changes, and a new one
changes what pools of this family are resolved to, and nothing else. -/
structure Registers (registry : Registry κ) (family : PoolFamily) (encoder : κ) : Prop where
  refused_iff : registry.register family encoder = .error (.duplicateFamily family) ↔
    family ∈ registry.families
  refused_only : ∀ error, registry.register family encoder = .error error →
    error = .duplicateFamily family
  unchanged : family ∈ registry.families → registry.step (.register family encoder) = registry
  added : ∀ next, registry.register family encoder = .ok next →
    registry.step (.register family encoder) = next ∧
    next.entryPoint = registry.entryPoint ∧ next.chainId = registry.chainId ∧
    (∀ other, other ∈ next.families ↔ other = family ∨ other ∈ registry.families) ∧
    ∀ (ε : Type) [Constructor κ ε] pool, next.resolve pool =
      if pool.family = family then Constructor.construct (registry.describe pool) encoder
      else registry.resolve pool

theorem registers (registry : Registry κ) (family : PoolFamily) (encoder : κ) :
    registry.Registers family encoder := by
  constructor
  case refused_iff => simp [register_eq_error_iff]
  case refused_only => exact fun error h => (register_eq_error_iff.mp h).2
  case unchanged =>
    intro h
    rw [step_register, extend_of_mem h]
  case added =>
    intro next h
    obtain ⟨hnew, rfl⟩ := register_eq_ok_iff.mp h
    refine ⟨step_register _ _ _, rfl, rfl, fun other => ?_,
      fun _ _ => resolve_extend_singleton hnew encoder⟩
    rw [mem_families_extend_singleton, or_comm]

/-- Where a run of steps leads. -/
structure Reaches (start : Registry κ) (steps : List (Step κ)) : Prop where
  ordered : (start.run steps).families.Pairwise fun a b => a.tag < b.tag
  families : ∀ family, family ∈ (start.run steps).families ↔
    family ∈ start.families ∨ ∃ k encoder next, steps[k]? = some (.register family encoder) ∧
      (start.run (steps.take k)).register family encoder = .ok next
  entryPoint : (start.run steps).entryPoint = start.entryPoint
  chainId : (start.run steps).chainId = (lastChain? steps).or start.chainId
  first : ∀ k family encoder, (start.run (steps.take k)).encoderFor family = some encoder →
    (start.run steps).encoderFor family = some encoder
  registers : ∀ family encoder, (start.run steps).Registers family encoder

theorem reaches (start : Registry κ) (steps : List (Step κ)) : start.Reaches steps := by
  constructor
  case ordered => exact families_pairwise _
  case families => exact fun family => mem_families_run_iff
  case entryPoint => rw [run_eq]; rfl
  case chainId => rw [run_eq]
  case first => exact fun k family encoder h => encoderFor_run_of_take h
  case registers => exact registers _

/-- Registers the family of an entry of a draft. -/
def enter (registry : Registry κ) (entry : PoolFamily × κ) : Except Failure (Registry κ) :=
  (registry.register entry.1 entry.2).mapError Failure.registry

/-- Entries are taken one by one exactly when no family comes twice or is known before. -/
theorem foldlM_enter_eq_ok_iff : added.foldlM enter start = .ok registry ↔
    (added.map Prod.fst).Nodup ∧ (∀ family ∈ added.map Prod.fst, family ∉ start.families) ∧
      registry = start.extend added := by
  induction added generalizing start with
  | nil => simp [pure, Except.pure, extend_nil, eq_comm]
  | cons entry rest ih =>
    obtain ⟨family, encoder⟩ := entry
    have henter {next : Registry κ} : start.enter (family, encoder) = .ok next ↔
        family ∉ start.families ∧ next = start.extend [(family, encoder)] := by
      rw [enter, Outcome.mapError_eq_ok_iff, register_eq_ok_iff]
    simp only [List.foldlM_cons, Outcome.bind_eq_ok_iff, henter, ih, List.map_cons,
      List.nodup_cons, List.forall_mem_cons]
    constructor
    · rintro ⟨_, ⟨hnew, rfl⟩, hnodup, hfree, rfl⟩
      -- A later family is new to a registry that has this one already.
      have hboth (other) (hother : other ∈ rest.map Prod.fst) :
          other ∉ start.families ∧ other ≠ family :=
        not_or.mp (mem_families_extend_singleton.not.mp (hfree other hother))
      refine ⟨⟨fun hmem => (hboth family hmem).2 rfl, hnodup⟩,
        ⟨hnew, fun other hother => (hboth other hother).1⟩, ?_⟩
      rw [extend_extend]
      rfl
    · rintro ⟨⟨hnot, hnodup⟩, ⟨hnew, hfree⟩, rfl⟩
      refine ⟨_, ⟨hnew, rfl⟩, hnodup, fun other hother hmem => ?_, ?_⟩
      · rcases mem_families_extend_singleton.mp hmem with hstart | rfl
        · exact hfree other hother hstart
        · exact hnot hother
      · rw [extend_extend]
        rfl

end Registry

namespace RegistryDraft

open Registry (Step entries lastChain? enter)

variable {κ : Type}

/-- The draft after a call. -/
def call (draft : RegistryDraft κ) : Step κ → RegistryDraft κ
  | .register family encoder => draft.family family encoder
  | .bind chainId => draft.withChain chainId

/-- The draft that calls make from nothing. -/
def ofSteps (entryPoint : Address) (steps : List (Step κ)) : RegistryDraft κ :=
  steps.foldl call ⟨entryPoint, none, []⟩

/-- The registry that a draft starts from. -/
def start (draft : RegistryDraft κ) : Registry κ :=
  { Registry.empty draft.entryPoint with chainId := draft.chainId }

variable {draft : RegistryDraft κ} {registry : Registry κ} {entryPoint : Address}
  {steps more : List (Step κ)} {failure : Failure}

theorem foldl_call (draft : RegistryDraft κ) (steps : List (Step κ)) : steps.foldl call draft =
    ⟨draft.entryPoint, (lastChain? steps).or draft.chainId, draft.families ++ entries steps⟩ := by
  induction steps generalizing draft with
  | nil => simp [entries, lastChain?]
  | cons first rest ih =>
    rw [List.foldl_cons, ih]
    cases first with
    | register family encoder =>
      simp only [call, RegistryDraft.family, List.append_assoc]
      rfl
    | bind chainId =>
      rw [Registry.lastChain?_bind_cons, Option.or_assoc]
      rfl

theorem ofSteps_eq (entryPoint : Address) (steps : List (Step κ)) :
    ofSteps entryPoint steps = ⟨entryPoint, lastChain? steps, entries steps⟩ := by
  rw [ofSteps, foldl_call, Option.or_none, List.nil_append]

theorem families_start : draft.start.families = [] := rfl

theorem build_eq : draft.build = draft.families.foldlM enter draft.start := rfl

theorem build_eq_ok_iff : draft.build = .ok registry ↔
    (draft.families.map Prod.fst).Nodup ∧ registry = draft.start.extend draft.families := by
  rw [build_eq, Registry.foldlM_enter_eq_ok_iff, families_start]
  simp

theorem build_eq_error_iff : draft.build = .error failure ↔
    ∃ k family encoder, draft.families[k]? = some (family, encoder) ∧
      ((draft.families.take k).map Prod.fst).Nodup ∧
      family ∈ (draft.families.take k).map Prod.fst ∧
      failure = .registry (.duplicateFamily family) := by
  rw [build_eq, Outcome.foldlM_eq_error_iff]
  constructor
  · rintro ⟨k, ⟨family, encoder⟩, next, hk, hnext, herror⟩
    obtain ⟨hnodup, -, rfl⟩ := Registry.foldlM_enter_eq_ok_iff.mp hnext
    obtain ⟨error, hregister, rfl⟩ := Outcome.mapError_eq_error_iff.mp herror
    obtain ⟨hmem, rfl⟩ := Registry.register_eq_error_iff.mp hregister
    rw [Registry.mem_families_extend, families_start] at hmem
    exact ⟨k, family, encoder, hk, hnodup, by simpa using hmem, rfl⟩
  · rintro ⟨k, family, encoder, hk, hnodup, hmem, rfl⟩
    refine ⟨k, (family, encoder), _, hk,
      Registry.foldlM_enter_eq_ok_iff.mpr ⟨hnodup, by simp [families_start], rfl⟩, ?_⟩
    rw [enter, Registry.register_of_mem (Registry.mem_families_extend.mpr (Or.inr hmem))]
    rfl

theorem build_ofSteps_eq_ok_iff : (ofSteps entryPoint steps).build = .ok registry ↔
    ((entries steps).map Prod.fst).Nodup ∧ registry = (Registry.empty entryPoint).run steps := by
  rw [build_eq_ok_iff, ofSteps_eq, Registry.run_eq]
  simp only [start, Registry.empty, Registry.extend, Option.or_none]

/-- Where no family is added twice, only the last chain depends on the order of the calls. -/
theorem run_eq_of_perm (hnodup : ((entries steps).map Prod.fst).Nodup)
    (hentries : (entries steps).Perm (entries more)) (hchain : lastChain? steps = lastChain? more)
    (start : Registry κ) : start.run steps = start.run more := by
  have hlookup (family : PoolFamily) :
      (entries steps).lookup family = (entries more).lookup family := by
    apply Option.ext
    intro encoder
    rw [Outcome.lookup_eq_some_iff hnodup, hentries.mem_iff,
      Outcome.lookup_eq_some_iff ((hentries.map Prod.fst).nodup_iff.mp hnodup)]
  simp only [Registry.run_eq, Registry.extend, hlookup, hchain]

/-- What calls on a draft come to when it is built. Calls in another order build the very same
registry, so nothing that is made of it tells the orders apart. -/
structure Builds (entryPoint : Address) (steps : List (Step κ)) : Prop where
  built_iff : (∃ registry, (ofSteps entryPoint steps).build = .ok registry) ↔
    ((entries steps).map Prod.fst).Nodup
  refused_iff : ∀ failure, (ofSteps entryPoint steps).build = .error failure ↔
    ∃ k family encoder, (entries steps)[k]? = some (family, encoder) ∧
      (((entries steps).take k).map Prod.fst).Nodup ∧
      family ∈ ((entries steps).take k).map Prod.fst ∧
      failure = .registry (.duplicateFamily family)
  registered : ∀ registry, (ofSteps entryPoint steps).build = .ok registry →
    (Registry.empty entryPoint).run steps = registry
  reordered : ∀ registry more, (ofSteps entryPoint steps).build = .ok registry →
    (entries steps).Perm (entries more) → lastChain? steps = lastChain? more →
    (ofSteps entryPoint more).build = .ok registry
  complete : ∀ own : PoolFamily → κ,
    (entries steps).Perm (PoolFamily.all.map fun family => (family, own family)) →
    (ofSteps entryPoint steps).build =
      .ok ⟨entryPoint, lastChain? steps, fun family => some (own family)⟩

theorem builds (entryPoint : Address) (steps : List (Step κ)) : Builds entryPoint steps := by
  constructor
  case built_iff => simp [build_ofSteps_eq_ok_iff]
  case refused_iff =>
    intro failure
    rw [build_eq_error_iff, ofSteps_eq]
  case registered => exact fun registry h => (build_ofSteps_eq_ok_iff.mp h).2.symm
  case reordered =>
    intro registry more h hentries hchain
    obtain ⟨hnodup, rfl⟩ := build_ofSteps_eq_ok_iff.mp h
    exact build_ofSteps_eq_ok_iff.mpr
      ⟨(hentries.map Prod.fst).nodup_iff.mp hnodup, run_eq_of_perm hnodup hentries hchain _⟩
  case complete =>
    intro own hentries
    have hown : (PoolFamily.all.map fun family => (family, own family)).map Prod.fst =
        PoolFamily.all := by
      rw [List.map_map]
      exact List.map_id _
    have hnodup : ((entries steps).map Prod.fst).Nodup := by
      rw [(hentries.map Prod.fst).nodup_iff, hown]
      decide
    refine build_ofSteps_eq_ok_iff.mpr ⟨hnodup, ?_⟩
    have hlookup (family : PoolFamily) : (entries steps).lookup family = some (own family) := by
      rw [Outcome.lookup_eq_some_iff hnodup, hentries.mem_iff]
      exact List.mem_map.mpr ⟨family, PoolFamily.mem_all family, rfl⟩
    simp only [Registry.run_eq, Registry.extend, Registry.empty, hlookup, Option.none_or,
      Option.or_none]

end RegistryDraft

/-- Registries as their makers see them, step by step or by a draft: a fresh registry has no family
or has all of them, every run of steps leads to a registry whose families and encoders it accounts
for, and a draft builds what the same calls would have registered. -/
theorem Registry.construction_laws :
    (∀ entryPoint, (Registry.standard entryPoint).families = PoolFamily.all) ∧
    (∀ entryPoint steps, (entries steps).Perm (PoolFamily.all.map fun family => (family, family)) →
      (RegistryDraft.ofSteps entryPoint steps).build =
        .ok { Registry.standard entryPoint with chainId := lastChain? steps }) ∧
    ∀ κ : Type, (∀ entryPoint, (Registry.empty entryPoint : Registry κ).families = []) ∧
      (∀ (start : Registry κ) steps, start.Reaches steps) ∧
      ∀ entryPoint (steps : List (Step κ)), RegistryDraft.Builds entryPoint steps :=
  ⟨fun _ => rfl, fun entryPoint steps => (RegistryDraft.builds entryPoint steps).complete id,
    fun _ => ⟨fun _ => rfl, reaches, RegistryDraft.builds⟩⟩

/-- Every family, the last one first, between two chains. -/
def Sample.reversedSteps : List (Registry.Step PoolFamily) :=
  [.bind 8453, .register .bridge .bridge, .register .stable .stable,
    .register .concentratedLiquidity .concentratedLiquidity, .bind 1,
    .register .constantProduct .constantProduct]

theorem Registry.construction_laws_reversedSteps :
    (entries Sample.reversedSteps).Perm (PoolFamily.all.map fun family => (family, family)) ∧
    (RegistryDraft.ofSteps ⟨List.replicate 20 0xEE, rfl⟩ Sample.reversedSteps).build =
      .ok ((Registry.standard ⟨List.replicate 20 0xEE, rfl⟩).withChain 1) := by
  have hentries : (entries Sample.reversedSteps).Perm
      (PoolFamily.all.map fun family => (family, family)) := by decide
  exact ⟨hentries, construction_laws.2.1 _ _ hentries⟩

end SwapCalldata
