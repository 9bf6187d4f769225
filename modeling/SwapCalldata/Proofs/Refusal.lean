import SwapCalldata.Proofs.Acceptance

/-!
Which refusal a route gets. The first leg that is refused decides, whatever follows it, and its
refusal is read off the leg and the pools before it. The instructions themselves are never refused:
each field fits the place it is written to.
-/
namespace SwapCalldata

namespace Pool

instance (pool : Pool) : Decidable pool.FeeIsNumber :=
  decidable_of_iff (pool.agrees pool = true) pool.agrees_self_iff

/-- Which of two tokens a pool does not trade, when they are not two different ones of its own. -/
def mismatch? (pool : Pool) (source target : Address) : Option RouteError :=
  if source ∉ pool.tokenAddresses then some (.legPoolMismatch pool.address source)
  else if target ∉ pool.tokenAddresses ∨ source = target then
    some (.legPoolMismatch pool.address target)
  else none

theorem indices_eq_error_iff {pool : Pool} {source target : Address} {error : RouteError} :
    pool.indices source target = .error error ↔ pool.mismatch? source target = some error := by
  have hplace {address : Address} {position : Nat} (h : pool.indexOf? address = some position) :
      address ∈ pool.tokenAddresses := by
    by_contra hnot
    rw [indexOf?_eq_none_iff.mpr hnot] at h
    cases h
  unfold indices mismatch?
  split
  · have hsource := indexOf?_eq_none_iff.mp ‹pool.indexOf? source = none›
    simp [hsource]
  · have hsource := hplace ‹pool.indexOf? source = some _›
    have htarget := indexOf?_eq_none_iff.mp ‹pool.indexOf? target = none›
    simp [hsource, htarget]
  · rename_i i j hi hj
    have hsame := FirstAt.eq_iff (indexOf?_eq_some_iff.mp hi) (indexOf?_eq_some_iff.mp hj)
    have hsource := hplace hi
    have htarget := hplace hj
    by_cases heq : i = j
    · simp [htarget, heq, hsame.mp heq]
    · have hne : source ≠ target := fun h => heq (hsame.mpr h)
      simp [hsource, htarget, heq, hne]

end Pool

/-- The first fault of a leg whose pool is resolved. -/
def Leg.fault? (leg : Leg) (revision : Revision) : Option RouteError :=
  if ¬leg.pool.family.HasLayout revision then
    some (.unsupportedPool leg.pool.family leg.pool.address revision)
  else if ¬leg.pool.FeeIsNumber then some (.foreignLegPool leg.pool.address leg.pool.address)
  else leg.pool.mismatch? leg.tokenFrom.address leg.tokenTo.address

namespace Registry

variable {registry : Registry} {revision : Revision} {recipient receiver : Address} {pool : Pool}
  {seen : List Pool} {leg : Leg} {legs : List Leg} {failure : Failure}

/-- Why a pool is not resolved: nobody serves its family, or who does rejects its shape. -/
def poolFault? (registry : Registry) (pool : Pool) : Option RegistryError :=
  match registry.encoderFor pool.family with
  | none => some (.unknownFamily pool.family pool.address)
  | some encoder =>
    match (registry.describe pool).layoutFor encoder with
    | .error fault => some (.invalidShape pool.family pool.address fault)
    | .ok _ => none

theorem resolve_eq_error_iff {error : RegistryError} :
    registry.resolve pool = .error error ↔ registry.poolFault? pool = some error := by
  unfold resolve poolFault?
  cases registry.encoderFor pool.family with
  | none => simp
  | some encoder =>
    show (registry.describe pool).encoder encoder = .error error ↔ _
    unfold PoolDescriptor.encoder
    cases h : (registry.describe pool).layoutFor encoder with
    | error fault =>
      simp only [h, Except.error.injEq, Option.some.injEq]
      rfl
    | ok layout => simp only [h, reduceCtorEq]

theorem poolFault?_eq_none_iff : registry.poolFault? pool = none ↔ registry.Serves pool := by
  rw [Option.eq_none_iff_forall_ne_some]
  constructor
  · intro hnone
    cases hresolve : registry.resolve pool with
    | error error => exact absurd (resolve_eq_error_iff.mp hresolve) (hnone error)
    | ok encoder => exact (resolve_eq_ok_iff.mp hresolve).1
  · intro hserves error hfault
    have hresolve := resolve_eq_ok_iff.mpr ⟨hserves, rfl⟩
    rw [resolve_eq_error_iff.mpr hfault] at hresolve
    cases hresolve

/-- The first fault of a leg on its own. -/
def fault? (registry : Registry) (revision : Revision) (leg : Leg) : Option Failure :=
  match registry.poolFault? leg.pool with
  | some error => some (.registry error)
  | none => (leg.fault? revision).map Failure.route

theorem indices_encoderOf_eq_error_iff (hlayout : leg.pool.family.HasLayout revision)
    {error : RouteError} : (registry.encoderOf leg.pool).indices leg = .error error ↔
      leg.fault? revision = some error := by
  have hpool : (registry.encoderOf leg.pool).pool = leg.pool := rfl
  unfold PoolEncoder.indices Leg.fault?
  rw [hpool, if_neg (not_not.mpr hlayout)]
  by_cases hfee : leg.pool.FeeIsNumber
  · have hagrees := leg.pool.agrees_self_iff.mpr hfee
    rw [if_pos hagrees, if_neg (not_not.mpr hfee)]
    exact Pool.indices_eq_error_iff
  · have hdisagrees := fun h => hfee (leg.pool.agrees_self_iff.mp h)
    rw [if_neg hdisagrees, if_pos hfee, Except.error.injEq, Option.some.injEq]

theorem instruct_encoderOf_eq_error_iff :
    (registry.encoderOf leg.pool).instruct revision leg receiver = .error failure ↔
      (leg.fault? revision).map Failure.route = some failure := by
  unfold PoolEncoder.instruct
  rw [instruction?_encoderOf]
  by_cases hlayout : leg.pool.family.HasLayout revision
  · simp only [if_pos hlayout, Outcome.bind_eq_error_iff, Outcome.mapError_eq_error_iff,
      Outcome.map_eq_error_iff, indices_encoderOf_eq_error_iff hlayout, Option.map_eq_some_iff]
    refine or_iff_left ?_
    rintro ⟨found, hfound, hmatch⟩
    obtain ⟨pair, _, rfl⟩ := Outcome.map_eq_ok_iff.mp (Outcome.mapError_eq_ok_iff.mp hfound)
    cases hmatch
  · unfold Leg.fault?
    rw [if_neg hlayout, if_pos hlayout, Option.map_some, Option.some.injEq]
    show (.error _ : Except Failure Instruction) = .error failure ↔ _
    rw [Except.error.injEq]
    rfl

/-- What a leg is refused for on its own does not depend on who is paid. -/
theorem instruct_eq_error_iff :
    registry.instruct revision leg receiver = .error failure ↔
      registry.fault? revision leg = some failure := by
  unfold instruct fault?
  cases hresolve : registry.resolve leg.pool with
  | error error =>
    rw [resolve_eq_error_iff.mp hresolve, Option.some.injEq]
    show (.error _ : Except Failure Instruction) = .error failure ↔ _
    rw [Except.error.injEq]
  | ok encoder =>
    obtain ⟨hserves, rfl⟩ := resolve_eq_ok_iff.mp hresolve
    rw [poolFault?_eq_none_iff.mpr hserves]
    exact instruct_encoderOf_eq_error_iff

theorem exists_instruct_iff_fault? (registry : Registry) (revision : Revision) (leg : Leg)
    (receiver : Address) :
    (∃ instruction, registry.instruct revision leg receiver = .ok instruction) ↔
      registry.fault? revision leg = none := by
  rw [Option.eq_none_iff_forall_ne_some]
  cases hresult : registry.instruct revision leg receiver with
  | error failure =>
    have hfault := instruct_eq_error_iff.mp hresult
    simp [hfault]
  | ok instruction =>
    have hnone (failure : Failure) : registry.fault? revision leg ≠ some failure := by
      intro hfault
      rw [instruct_eq_error_iff.mpr hfault] at hresult
      cases hresult
    simp [hnone]

/-- The first fault of a leg after pools that were used before it. -/
def faultAfter? (registry : Registry) (revision : Revision) (seen : List Pool) (leg : Leg) :
    Option Failure :=
  if ∃ other ∈ seen, other.conflicts leg.pool = true then
    some (.registry (.conflictingPool leg.pool.address))
  else registry.fault? revision leg

theorem faultAfter?_congr {seen' : List Pool} (h : ∀ other, other ∈ seen ↔ other ∈ seen')
    (leg : Leg) : registry.faultAfter? revision seen leg =
      registry.faultAfter? revision seen' leg := by
  unfold faultAfter?
  simp only [h]

theorem faultAfter?_of_free (hfree : ∀ other ∈ seen, other.conflicts leg.pool = false) :
    registry.faultAfter? revision seen leg = registry.fault? revision leg := by
  apply if_neg
  rintro ⟨other, hother, hconflict⟩
  rw [hfree other hother] at hconflict
  cases hconflict

theorem exists_instructions_cons_iff : (∃ instructions,
    registry.instructions revision recipient seen (leg :: legs) = .ok instructions) ↔
      registry.faultAfter? revision seen leg = none ∧ ∃ instructions,
        registry.instructions revision recipient (leg.pool :: seen) legs = .ok instructions := by
  by_cases hfree : ∀ other ∈ seen, other.conflicts leg.pool = false
  · have hinstruct := registry.exists_instruct_iff_fault? revision leg
      (registry.receiver recipient leg legs)
    rw [faultAfter?_of_free hfree, ← hinstruct]
    simp only [instructions_cons_eq_ok_iff]
    constructor
    · rintro ⟨_, _, first, others, rfl, hfirst, hothers⟩
      exact ⟨⟨first, hfirst⟩, others, hothers⟩
    · rintro ⟨⟨first, hfirst⟩, others, hothers⟩
      exact ⟨_, hfree, first, others, rfl, hfirst, hothers⟩
  · constructor
    · rintro ⟨_, hok⟩
      exact absurd (instructions_cons_eq_ok_iff.mp hok).1 hfree
    · rintro ⟨hnone, _⟩
      push Not at hfree
      obtain ⟨other, hother, hconflict⟩ := hfree
      have hsome : registry.faultAfter? revision seen leg = some _ :=
        if_pos ⟨other, hother, Bool.eq_true_of_not_eq_false hconflict⟩
      rw [hsome] at hnone
      cases hnone

theorem instructions_cons_eq_error_iff :
    registry.instructions revision recipient seen (leg :: legs) = .error failure ↔
      registry.faultAfter? revision seen leg = some failure ∨
      registry.faultAfter? revision seen leg = none ∧
        registry.instructions revision recipient (leg.pool :: seen) legs = .error failure := by
  by_cases hfree : ∀ other ∈ seen, other.conflicts leg.pool = false
  · have hinstruct := registry.exists_instruct_iff_fault? revision leg
      (registry.receiver recipient leg legs)
    rw [instructions_cons hfree, faultAfter?_of_free hfree, ← hinstruct]
    simp only [Outcome.bind_eq_error_iff, Outcome.map_eq_error_iff, instruct_eq_error_iff,
      exists_and_right]
  · push Not at hfree
    obtain ⟨other, hother, hconflict⟩ := hfree
    have hconflict := Bool.eq_true_of_not_eq_false hconflict
    have hsome : registry.faultAfter? revision seen leg = some _ :=
      if_pos ⟨other, hother, hconflict⟩
    rw [instructions_of_conflict hother hconflict, hsome]
    simp

/-- The first leg with a fault after the pools before it gives the refusal. -/
theorem instructions_eq_error_iff :
    registry.instructions revision recipient seen legs = .error failure ↔
      ∃ k leg, legs[k]? = some leg ∧
        (∃ instructions,
          registry.instructions revision recipient seen (legs.take k) = .ok instructions) ∧
        registry.faultAfter? revision (seen ++ (legs.take k).map Leg.pool) leg =
          some failure := by
  induction legs generalizing seen with
  | nil => simp [Registry.instructions]
  | cons leg rest ih =>
    have hbefore (k : Nat) (later : Leg) : registry.faultAfter? revision
        (seen ++ ((leg :: rest).take (k + 1)).map Leg.pool) later =
          registry.faultAfter? revision ((leg.pool :: seen) ++ (rest.take k).map Leg.pool) later :=
      faultAfter?_congr (fun _ => List.perm_middle.mem_iff) later
    rw [instructions_cons_eq_error_iff, ih]
    constructor
    · rintro (hfault | ⟨hnone, k, later, hlater, hok, hfault⟩)
      · refine ⟨0, leg, rfl, ⟨[], rfl⟩, ?_⟩
        rwa [List.take_zero, List.map_nil, List.append_nil]
      · refine ⟨k + 1, later, hlater, ?_, ?_⟩
        · exact exists_instructions_cons_iff.mpr ⟨hnone, hok⟩
        · rw [hbefore, hfault]
    · rintro ⟨k, later, hlater, hok, hfault⟩
      cases k with
      | zero =>
        obtain rfl := Option.some.inj hlater
        rw [List.take_zero, List.map_nil, List.append_nil] at hfault
        exact Or.inl hfault
      | succ k =>
        rw [hbefore] at hfault
        obtain ⟨hnone, hok⟩ := exists_instructions_cons_iff.mp hok
        exact Or.inr ⟨hnone, k, later, hlater, hok, hfault⟩

/-- Why a leg is refused after the legs with these pools. A pool that none of them uses is resolved
first. -/
def refusal? (registry : Registry) (revision : Revision) (seen : List Pool) (leg : Leg) :
    Option Failure :=
  if ∃ other ∈ seen, other.conflicts leg.pool = true then
    some (.registry (.conflictingPool leg.pool.address))
  else if ∃ other ∈ seen, other.address = leg.pool.address then
    (leg.fault? revision).map Failure.route
  else registry.fault? revision leg

/-- A pool that agrees with one of an accepted leg is resolved. -/
theorem refusal?_eq_faultAfter? (hserves : ∀ other ∈ seen, registry.Serves other) :
    registry.refusal? revision seen leg = registry.faultAfter? revision seen leg := by
  unfold refusal? faultAfter?
  split
  · rfl
  · rename_i hfree
    split
    · obtain ⟨other, hother, haddress⟩ := ‹∃ other ∈ seen, other.address = leg.pool.address›
      have hagrees : other.agrees leg.pool = true := by
        refine Pool.conflicts_eq_false_iff.mp ?_ haddress
        exact Bool.eq_false_iff.mpr fun hconflict => hfree ⟨other, hother, hconflict⟩
      have hnone := poolFault?_eq_none_iff.mpr ((hserves other hother).of_agrees hagrees)
      unfold fault?
      rw [hnone]
    · rfl

theorem serves_of_instructions {instructions : List Instruction}
    (h : registry.instructions revision recipient [] legs = .ok instructions) :
    ∀ other ∈ legs.map Leg.pool, registry.Serves other := by
  intro other hother
  obtain ⟨leg, hleg, rfl⟩ := List.mem_map.mp hother
  obtain ⟨k, hk⟩ := List.mem_iff_getElem?.mp hleg
  exact (exists_instructions_iff.mp ⟨instructions, h⟩ k leg hk).1.serves

end Registry

namespace Failure

/-- The failures of a compilation: a route or a leg is refused, or a pool is not resolved. -/
def IsRefusal : Failure → Prop
  | .route (.invalidFraction _) => False
  | .route (.invalidSlippage _) => False
  | .route _ => True
  | .registry (.duplicateFamily _) => False
  | .registry _ => True
  | .encoding _ => False
  | .input _ => False
  | .config _ => False
  | .json => False

theorem isRefusal_of_mismatch? {pool : Pool} {source target : Address} {error : RouteError}
    (h : pool.mismatch? source target = some error) : (Failure.route error).IsRefusal := by
  unfold Pool.mismatch? at h
  split at h
  · cases h
    trivial
  · split at h
    · cases h
      trivial
    · cases h

theorem isRefusal_of_fault? {leg : Leg} {revision : Revision} {error : RouteError}
    (h : leg.fault? revision = some error) : (Failure.route error).IsRefusal := by
  unfold Leg.fault? at h
  split at h
  · cases h
    trivial
  · split at h
    · cases h
      trivial
    · exact isRefusal_of_mismatch? h

theorem isRefusal_of_poolFault? {registry : Registry} {pool : Pool} {error : RegistryError}
    (h : registry.poolFault? pool = some error) : (Failure.registry error).IsRefusal := by
  unfold Registry.poolFault? at h
  split at h
  · cases h
    trivial
  · split at h
    · cases h
      trivial
    · cases h

theorem isRefusal_of_faultAfter? {registry : Registry} {revision : Revision} {seen : List Pool}
    {leg : Leg} {failure : Failure} (h : registry.faultAfter? revision seen leg = some failure) :
    failure.IsRefusal := by
  unfold Registry.faultAfter? Registry.fault? at h
  split at h
  · cases h
    trivial
  · split at h
    · cases h
      exact isRefusal_of_poolFault? ‹_›
    · obtain ⟨error, herror, rfl⟩ := Option.map_eq_some_iff.mp h
      exact isRefusal_of_fault? herror

end Failure

/-- The route with its first legs only. -/
def Route.firstLegs (route : Route) (count : Nat) : Route :=
  { route with legs := route.legs.take count }

namespace Compiler

variable {compiler : Compiler} {route : Route} {revision : Revision} {recipient : Address}
  {failure failure' : Failure} {i j : Nat}

/-- The leg at a position decides: the legs before it compile, and with it they never do. -/
structure Decides (compiler : Compiler) (route : Route) (revision : Revision) (recipient : Address)
    (failure : Failure) (i : Nat) : Prop where
  before : i ≠ 0 →
    ∃ compiled, compiler.compile (route.firstLegs i) revision recipient = .ok compiled
  after : ∀ other : Route, other.status ≠ .noWay →
    other.legs.take (i + 1) = route.legs.take (i + 1) →
    compiler.compile other revision recipient = .error failure

theorem Decides.not_lt (hstatus : route.status ≠ .noWay)
    (hi : compiler.Decides route revision recipient failure i)
    (hj : compiler.Decides route revision recipient failure' j) : ¬i < j := by
  intro hlt
  obtain ⟨compiled, hcompiled⟩ := hj.before (Nat.ne_zero_of_lt hlt)
  have hsame : (route.firstLegs j).legs.take (i + 1) = route.legs.take (i + 1) := by
    show (route.legs.take j).take (i + 1) = _
    rw [List.take_take, Nat.min_eq_left hlt]
  rw [hi.after (route.firstLegs j) hstatus hsame] at hcompiled
  cases hcompiled

theorem compile_eq_error_iff (hstatus : route.status ≠ .noWay) (hlegs : route.legs ≠ []) :
    compiler.compile route revision recipient = .error failure ↔
      compiler.registry.instructions revision recipient [] route.legs = .error failure := by
  have hviable := Route.isViable_iff.mpr hstatus
  rw [compile_eq, if_neg (by simp [hviable]), if_neg hlegs, Outcome.map_eq_error_iff]

theorem decides_of_fault {leg : Leg} (hstatus : route.status ≠ .noWay)
    (hleg : route.legs[i]? = some leg)
    (hok : ∃ instructions, compiler.registry.instructions revision recipient []
      (route.legs.take i) = .ok instructions)
    (hfault : compiler.registry.faultAfter? revision ([] ++ (route.legs.take i).map Leg.pool) leg =
      some failure) : compiler.Decides route revision recipient failure i := by
  have hlegs : route.legs ≠ [] := by
    intro hnil
    rw [hnil] at hleg
    cases hleg
  constructor
  case before =>
    intro hi
    obtain ⟨instructions, hok⟩ := hok
    have hfirst : (route.firstLegs i).legs ≠ [] := by
      intro hnil
      rcases List.take_eq_nil_iff.mp hnil with hzero | hnil
      · exact hi hzero
      · exact hlegs hnil
    exact ⟨_, compile_eq_ok_iff.mpr
      ⟨Route.isViable_iff.mpr hstatus, hfirst, instructions, hok, rfl⟩⟩
  case after =>
    intro other hother hsame
    have hget : other.legs[i]? = some leg := by
      rw [← hleg, ← List.getElem?_take_of_lt (Nat.lt_succ_self i), hsame,
        List.getElem?_take_of_lt (Nat.lt_succ_self i)]
    have htake : other.legs.take i = route.legs.take i := by
      have hboth := congrArg (List.take i) hsame
      simpa only [List.take_take, Nat.min_eq_left (Nat.le_succ i)] using hboth
    have hnonempty : other.legs ≠ [] := by
      intro hnil
      rw [hnil] at hget
      cases hget
    rw [compile_eq_error_iff hother hnonempty]
    refine Registry.instructions_eq_error_iff.mpr ⟨i, leg, hget, ?_, ?_⟩
    · rwa [htake]
    · rwa [htake]

/-- A route without a path is refused first, then one without legs, and then one leg decides: the
legs before it compile, every route that starts with the same legs up to it is refused alike, and
no other leg does so. Nothing else is refused, and no instruction fails to be written. -/
theorem compile_refusal (compiler : Compiler) (route : Route) (revision : Revision)
    (recipient : Address) :
    (route.status = .noWay →
      compiler.compile route revision recipient = .error (.route .noViableRoute)) ∧
    (route.status ≠ .noWay → route.legs = [] →
      compiler.compile route revision recipient = .error (.route .emptyRoute)) ∧
    (∀ failure, route.status ≠ .noWay → route.legs ≠ [] →
      compiler.compile route revision recipient = .error failure → ∃ i leg,
        route.legs[i]? = some leg ∧ compiler.Decides route revision recipient failure i ∧
        (∀ j, compiler.Decides route revision recipient failure j → j = i) ∧
        compiler.registry.refusal? revision ((route.legs.take i).map Leg.pool) leg =
          some failure) ∧
    (∀ failure, compiler.compile route revision recipient = .error failure → failure.IsRefusal) ∧
    (∀ (instruction : Instruction) (buffer : Buffer),
      instruction.fields.foldlM Buffer.append buffer =
        .ok ⟨buffer.bytes ++ instruction.bytes⟩) := by
  have hnoWay (hstatus : route.status = .noWay) :
      compiler.compile route revision recipient = .error (.route .noViableRoute) := by
    have hviable : route.isViable = false :=
      Bool.eq_false_iff.mpr fun h => Route.isViable_iff.mp h hstatus
    rw [compile_eq, if_pos hviable]
  have hempty (hstatus : route.status ≠ .noWay) (hlegs : route.legs = []) :
      compiler.compile route revision recipient = .error (.route .emptyRoute) := by
    rw [compile_eq, if_neg (by simp [Route.isViable_iff.mpr hstatus]), if_pos hlegs]
  have hdecided (failure : Failure) (hstatus : route.status ≠ .noWay) (hlegs : route.legs ≠ [])
      (h : compiler.compile route revision recipient = .error failure) :=
    Registry.instructions_eq_error_iff.mp ((compile_eq_error_iff hstatus hlegs).mp h)
  refine ⟨hnoWay, hempty, ?_, ?_, Instruction.append_fields⟩
  · intro failure hstatus hlegs h
    obtain ⟨i, leg, hleg, hok, hfault⟩ := hdecided failure hstatus hlegs h
    have hi := decides_of_fault hstatus hleg hok hfault
    refine ⟨i, leg, hleg, hi, ?_, ?_⟩
    · intro j hj
      exact Nat.le_antisymm (Nat.not_lt.mp (hi.not_lt hstatus hj))
        (Nat.not_lt.mp (hj.not_lt hstatus hi))
    · obtain ⟨instructions, hok⟩ := hok
      rw [Registry.refusal?_eq_faultAfter? (Registry.serves_of_instructions hok)]
      exact hfault
  · intro failure h
    by_cases hstatus : route.status = .noWay
    · rw [hnoWay hstatus] at h
      cases h
      trivial
    · by_cases hlegs : route.legs = []
      · rw [hempty hstatus hlegs] at h
        cases h
        trivial
      · obtain ⟨_, _, _, _, hfault⟩ := hdecided failure hstatus hlegs h
        exact Failure.isRefusal_of_faultAfter? hfault

end Compiler

namespace Sample

/-- The second leg describes the pool of the first with another fee, and no pool has the tokens of
the third. -/
def conflictingRoute : Route :=
  ⟨.success, [leg 0xA0 0xB0 (stablePool Double.zero), leg 0xB0 0xC0 (stablePool Double.one),
    leg 0xA1 0xB1 bridgePool], token 0xA0, token 0xC0, 1000, 2000⟩

theorem compile_conflictingRoute : compiler.compile conflictingRoute .v2 (address 0xAA) =
    .error (.registry (.conflictingPool (address 0x51))) := by
  decide +kernel

end Sample

theorem Compiler.compile_refusal_conflictingRoute :
    Sample.compiler.compile Sample.conflictingRoute .v2 (Sample.address 0xAA) =
        .error (.registry (.conflictingPool (Sample.address 0x51))) ∧
      ∃ i leg, Sample.conflictingRoute.legs[i]? = some leg ∧
        Sample.compiler.Decides Sample.conflictingRoute .v2 (Sample.address 0xAA)
          (.registry (.conflictingPool (Sample.address 0x51))) i ∧
        Sample.compiler.registry.refusal? .v2
          ((Sample.conflictingRoute.legs.take i).map Leg.pool) leg =
            some (.registry (.conflictingPool (Sample.address 0x51))) := by
  obtain ⟨_, _, hrefused, _⟩ :=
    compile_refusal Sample.compiler Sample.conflictingRoute .v2 (Sample.address 0xAA)
  obtain ⟨i, leg, hleg, hdecides, _, hrefusal⟩ :=
    hrefused _ (by decide) (by decide) Sample.compile_conflictingRoute
  exact ⟨Sample.compile_conflictingRoute, i, leg, hleg, hdecides, hrefusal⟩

end SwapCalldata
