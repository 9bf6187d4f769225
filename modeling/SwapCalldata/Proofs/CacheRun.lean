import SwapCalldata.Proofs.Compilation

/-!
Whole runs of the encoder cache. The first pool that gets an encoder at an address decides for the
address: later pools there get its encoder or are refused, as they agree with it or not. A refused
pool leaves no trace, so it does not spoil its address for others.
-/
namespace SwapCalldata

/-- The encoders cannot be told apart by what they find or write for a leg. -/
structure PoolEncoder.Behaves (a b : PoolEncoder) : Prop where
  indices : ∀ leg, a.indices leg = b.indices leg
  zeroForOne : ∀ leg, a.zeroForOne leg = b.zeroForOne leg
  encode : ∀ revision leg recipient,
    a.encode revision leg recipient = b.encode revision leg recipient

theorem Registry.behaves_encoderOf {registry : Registry} {a b : Pool} (h : a.agrees b = true) :
    (registry.encoderOf a).Behaves (registry.encoderOf b) := by
  have hindices : (registry.encoderOf a).indices = (registry.encoderOf b).indices :=
    indices_encoderOf_eq_of_agrees h
  constructor
  case indices => exact congrFun hindices
  case zeroForOne =>
    intro leg
    unfold PoolEncoder.zeroForOne
    rw [hindices]
  case encode =>
    intro revision leg recipient
    unfold PoolEncoder.encode
    rw [instruction?_encoderOf_eq_of_agrees h]

namespace EncoderCache

/-- What a pool gets that is asked for. -/
def answer (cache : EncoderCache) (registry : Registry) (pool : Pool) :
    Except RegistryError PoolEncoder :=
  (cache.resolve registry pool).map Prod.fst

/-- The cache after pools were asked for in turn. -/
def afterAll (cache : EncoderCache) (registry : Registry) (pools : List Pool) : EncoderCache :=
  pools.foldl (fun cache pool => cache.after registry pool) cache

/-- Pools that are asked for in turn, with what they get. -/
def log (cache : EncoderCache) (registry : Registry) :
    List Pool → List (Pool × Except RegistryError PoolEncoder)
  | [] => []
  | pool :: rest =>
    (pool, cache.answer registry pool) :: (cache.after registry pool).log registry rest

/-- None of the first requests got an encoder for an address. -/
def Unserved (log : List (Pool × Except RegistryError PoolEncoder)) (count : Nat)
    (address : Address) : Prop :=
  ∀ k < count, ∀ pool encoder, log[k]? = some (pool, .ok encoder) → pool.address ≠ address

/-- The addresses for which requests got an encoder. -/
def servedAddresses (log : List (Pool × Except RegistryError PoolEncoder)) : List Address :=
  (log.filter fun request => request.2.isOk).map fun request => request.1.address

/-- The encoder that a request got for an address. -/
def servedAt (address : Address) (request : Pool × Except RegistryError PoolEncoder) :
    Option PoolEncoder :=
  if request.1.address = address then request.2.toOption else none

/-- What a request does. A known address serves the pools that agree with the one there; at another
address the registry decides, and an encoder of its is kept. -/
inductive Request (cache : EncoderCache) (registry : Registry) (pool : Pool) :
    Except RegistryError PoolEncoder → EncoderCache → Prop where
  | hit (encoder : PoolEncoder) (known : cache.find? pool.address = some encoder) :
      Request cache registry pool (if encoder.pool.agrees pool then .ok encoder
        else .error (.conflictingPool pool.address)) cache
  | refused (error : RegistryError) (unknown : cache.find? pool.address = none)
      (fault : registry.resolve pool = .error error) :
      Request cache registry pool (.error error) cache
  | learnt (encoder : PoolEncoder) (unknown : cache.find? pool.address = none)
      (resolved : registry.resolve pool = .ok encoder) :
      Request cache registry pool (.ok encoder) (cache.learn pool.address encoder)

variable {cache next : EncoderCache} {registry : Registry} {pool : Pool} {pools : List Pool}
  {encoder : PoolEncoder} {error : RegistryError} {address : Address} {k : Nat}
  {answer : Except RegistryError PoolEncoder}
  {log : List (Pool × Except RegistryError PoolEncoder)}

theorem request (cache : EncoderCache) (registry : Registry) (pool : Pool) :
    cache.Request registry pool (cache.answer registry pool) (cache.after registry pool) := by
  cases hfind : cache.find? pool.address with
  | some encoder =>
    have hhit : cache.Request registry pool _ cache := .hit encoder hfind
    unfold EncoderCache.answer after
    by_cases hagrees : encoder.pool.agrees pool = true
    · rw [if_pos hagrees] at hhit
      rw [resolve_of_hit hfind hagrees]
      exact hhit
    · rw [if_neg hagrees] at hhit
      rw [resolve_of_mismatch hfind hagrees]
      exact hhit
  | none =>
    unfold EncoderCache.answer after
    rw [resolve_of_miss hfind]
    cases hresolve : registry.resolve pool with
    | error error => exact .refused error hfind hresolve
    | ok encoder => exact .learnt encoder hfind hresolve

theorem Request.answer_of_hit (h : cache.Request registry pool answer next)
    (hhit : cache.find? pool.address = some encoder) :
    answer = if encoder.pool.agrees pool then .ok encoder
      else .error (.conflictingPool pool.address) := by
  cases h with
  | hit other known =>
    obtain rfl := Option.some.inj (known.symm.trans hhit)
    rfl
  | refused error unknown => rw [unknown] at hhit; cases hhit
  | learnt encoder unknown => rw [unknown] at hhit; cases hhit

theorem Request.answer_of_miss (h : cache.Request registry pool answer next)
    (hmiss : cache.find? pool.address = none) : answer = registry.resolve pool := by
  cases h with
  | hit encoder known => rw [known] at hmiss; cases hmiss
  | refused error unknown fault => exact fault.symm
  | learnt encoder unknown resolved => exact resolved.symm

theorem Request.next_of_error (h : cache.Request registry pool (.error error) next) :
    next = cache := by
  generalize hanswer : Except.error error = answer at h
  cases h with
  | hit encoder known => rfl
  | refused error unknown fault => rfl
  | learnt encoder unknown resolved => cases hanswer

/-- A request adds what it got, and only where nothing was known. -/
theorem Request.find?_next (h : cache.Request registry pool answer next) (address : Address) :
    next.find? address = (cache.find? address).or (servedAt address (pool, answer)) := by
  unfold servedAt
  dsimp only
  by_cases haddress : pool.address = address
  swap
  · rw [if_neg haddress, Option.or_none]
    cases h with
    | hit encoder known => rfl
    | refused error unknown fault => rfl
    | learnt encoder unknown resolved => rw [find?_learn, if_neg (Ne.symm haddress)]
  subst haddress
  rw [if_pos rfl]
  cases h with
  | hit encoder known => rw [known, Option.some_or]
  | refused error unknown fault => rw [unknown]; rfl
  | learnt encoder unknown resolved =>
    rw [find?_learn, if_pos rfl, unknown]
    rfl

/-- Every encoder stands at the address of its pool, and the registry resolved it for that pool. -/
def Sound (cache : EncoderCache) (registry : Registry) : Prop :=
  ∀ address encoder, cache.find? address = some encoder →
    encoder.pool.address = address ∧ registry.resolve encoder.pool = .ok encoder

theorem Request.sound (h : cache.Request registry pool answer next)
    (hsound : cache.Sound registry) : next.Sound registry := by
  cases h with
  | hit encoder known => exact hsound
  | refused error unknown fault => exact hsound
  | learnt encoder unknown resolved =>
    intro address found hfound
    rw [find?_learn] at hfound
    split at hfound
    next heq =>
      obtain rfl := Option.some.inj hfound
      have hpool := pool_of_resolve resolved
      exact ⟨by rw [hpool, heq], by rw [hpool, resolved]⟩
    next => exact hsound address found hfound

/-- The addresses at which the cache knows an encoder. -/
def addresses (cache : EncoderCache) : List Address := cache.encoders.map Prod.fst

theorem mem_addresses_iff : address ∈ cache.addresses ↔ cache.find? address ≠ none := by
  unfold addresses find?
  rw [ne_eq, Outcome.lookup_eq_none_iff, not_not]

theorem Request.nodup (h : cache.Request registry pool answer next)
    (hnodup : cache.addresses.Nodup) : next.addresses.Nodup := by
  cases h with
  | hit encoder known => exact hnodup
  | refused error unknown fault => exact hnodup
  | learnt encoder unknown resolved =>
    refine List.nodup_cons.mpr ⟨?_, hnodup⟩
    exact fun hmem => mem_addresses_iff.mp hmem unknown

/-! ### A run of requests -/

theorem sound_afterAll (hsound : cache.Sound registry) :
    (cache.afterAll registry pools).Sound registry := by
  induction pools generalizing cache with
  | nil => exact hsound
  | cons pool rest ih => exact ih ((request cache registry pool).sound hsound)

theorem nodup_afterAll (hnodup : cache.addresses.Nodup) :
    (cache.afterAll registry pools).addresses.Nodup := by
  induction pools generalizing cache with
  | nil => exact hnodup
  | cons pool rest ih => exact ih ((request cache registry pool).nodup hnodup)

/-- What a run knows at an address is what it knew before, or else the first encoder that the run
got for it. -/
theorem find?_afterAll (cache : EncoderCache) (registry : Registry) (pools : List Pool)
    (address : Address) : (cache.afterAll registry pools).find? address =
      (cache.find? address).or ((cache.log registry pools).findSome? (servedAt address)) := by
  induction pools generalizing cache with
  | nil => exact (Option.or_none).symm
  | cons pool rest ih =>
    show ((cache.after registry pool).afterAll registry rest).find? address = _
    rw [ih, (request cache registry pool).find?_next, Option.or_assoc, EncoderCache.log,
      List.findSome?_cons]
    congr 1
    cases servedAt address (pool, cache.answer registry pool) <;> rfl

theorem map_fst_log (cache : EncoderCache) (registry : Registry) (pools : List Pool) :
    (cache.log registry pools).map Prod.fst = pools := by
  induction pools generalizing cache with
  | nil => rfl
  | cons pool rest ih => rw [EncoderCache.log, List.map_cons, ih]

theorem log_take (cache : EncoderCache) (registry : Registry) (pools : List Pool) (k : Nat) :
    cache.log registry (pools.take k) = (cache.log registry pools).take k := by
  induction pools generalizing cache k with
  | nil => simp [EncoderCache.log]
  | cons pool rest ih =>
    cases k with
    | zero => rfl
    | succ k =>
      rw [List.take_succ_cons, EncoderCache.log, ih, EncoderCache.log, List.take_succ_cons]

/-- A request in a run is one to the cache that the requests before it left. -/
theorem request_of_getElem?_log (h : (cache.log registry pools)[k]? = some (pool, answer)) :
    (cache.afterAll registry (pools.take k)).Request registry pool answer
      (cache.afterAll registry (pools.take (k + 1))) := by
  induction pools generalizing cache k with
  | nil => cases h
  | cons first rest ih =>
    cases k with
    | zero =>
      obtain ⟨rfl, rfl⟩ := Prod.mk.inj (Option.some.inj h)
      exact request cache registry first
    | succ k => exact ih h

theorem findSome?_take_eq_none (h : Unserved log k address) :
    (log.take k).findSome? (servedAt address) = none := by
  rw [List.findSome?_eq_none_iff]
  rintro ⟨pool, answer⟩ hmem
  obtain ⟨j, hj⟩ := List.mem_iff_getElem?.mp hmem
  rw [List.getElem?_take, Option.ite_none_right_eq_some] at hj
  unfold servedAt
  split
  next haddress =>
    cases answer with
    | error error => rfl
    | ok encoder => exact absurd haddress (h j hj.1 pool encoder hj.2)
  next => rfl

theorem findSome?_take_eq_some {j : Nat} (hjk : j < k) (hj : log[j]? = some (pool, .ok encoder))
    (h : Unserved log j pool.address) :
    (log.take k).findSome? (servedAt pool.address) = some encoder := by
  have hj' : (log.take k)[j]? = some (pool, .ok encoder) := by
    rw [List.getElem?_take_of_lt hjk, hj]
  obtain ⟨hlt, hget⟩ := List.getElem?_eq_some_iff.mp hj'
  -- The first requests end in this one, with none before it that was served there.
  have hbefore : (log.take k).take j = log.take j := by
    rw [List.take_take, Nat.min_eq_left hjk.le]
  refine List.findSome?_eq_some_iff.mpr
    ⟨log.take j, (pool, .ok encoder), (log.take k).drop (j + 1), ?_, if_pos rfl, ?_⟩
  · rw [← hbefore, ← hget, ← List.drop_eq_getElem_cons hlt, List.take_append_drop]
  · exact List.findSome?_eq_none_iff.mp (findSome?_take_eq_none h)

/-- What the cache of a run knows after the first requests. -/
theorem find?_afterAll_take (registry : Registry) (pools : List Pool) (k : Nat)
    (address : Address) : (empty.afterAll registry (pools.take k)).find? address =
      ((empty.log registry pools).take k).findSome? (servedAt address) := by
  rw [find?_afterAll, log_take]
  exact Option.none_or

theorem servedAt_ne_none_iff {request : Pool × Except RegistryError PoolEncoder} :
    servedAt address request ≠ none ↔ request.2.isOk = true ∧ request.1.address = address := by
  unfold servedAt
  by_cases haddress : request.1.address = address
  · rw [if_pos haddress]
    cases request.2 <;> simp [Except.toOption, Except.isOk, Except.toBool, haddress]
  · simp [haddress]

theorem mem_servedAddresses_iff :
    address ∈ servedAddresses log ↔ log.findSome? (servedAt address) ≠ none := by
  unfold servedAddresses
  rw [ne_eq, List.findSome?_eq_none_iff, List.mem_map]
  push Not
  simp only [servedAt_ne_none_iff, List.mem_filter, and_assoc]

/-- The cache holds one encoder for each address that was served. -/
theorem size_afterAll_take (registry : Registry) (pools : List Pool) (k : Nat) :
    (empty.afterAll registry (pools.take k)).size =
      (servedAddresses ((empty.log registry pools).take k)).toFinset.card := by
  have hnodup : (empty.afterAll registry (pools.take k)).addresses.Nodup :=
    nodup_afterAll List.nodup_nil
  have hsame : (empty.afterAll registry (pools.take k)).addresses.toFinset =
      (servedAddresses ((empty.log registry pools).take k)).toFinset := by
    ext address
    rw [List.mem_toFinset, List.mem_toFinset, mem_addresses_iff, mem_servedAddresses_iff,
      find?_afterAll_take]
  rw [← hsame, List.toFinset_card_of_nodup hnodup]
  exact (List.length_map _).symm

/-- Without a refused pool the run goes the same way. -/
theorem log_eraseIdx (h : (cache.log registry pools)[k]? = some (pool, .error error)) :
    cache.log registry (pools.eraseIdx k) = (cache.log registry pools).eraseIdx k := by
  induction pools generalizing cache k with
  | nil => rfl
  | cons first rest ih =>
    cases k with
    | zero =>
      obtain ⟨rfl, hanswer⟩ := Prod.mk.inj (Option.some.inj h)
      -- The rest of the run starts from the cache that the refused pool found.
      have hnext : cache.after registry first = cache :=
        (hanswer ▸ request cache registry first).next_of_error
      rw [List.eraseIdx_cons_zero, EncoderCache.log, List.eraseIdx_cons_zero, hnext]
    | succ k =>
      rw [List.eraseIdx_cons_succ, EncoderCache.log, ih h, EncoderCache.log,
        List.eraseIdx_cons_succ]

theorem answer_of_unserved (h : (empty.log registry pools)[k]? = some (pool, answer))
    (hunserved : Unserved (empty.log registry pools) k pool.address) :
    answer = registry.resolve pool := by
  apply (request_of_getElem?_log h).answer_of_miss
  rw [find?_afterAll_take, findSome?_take_eq_none hunserved]

theorem answer_of_served {j : Nat} {origin : Pool} (hjk : j < k)
    (hj : (empty.log registry pools)[j]? = some (origin, .ok encoder))
    (hunserved : Unserved (empty.log registry pools) j origin.address)
    (h : (empty.log registry pools)[k]? = some (pool, answer))
    (haddress : origin.address = pool.address) :
    registry.resolve origin = .ok encoder ∧ answer = if origin.agrees pool then .ok encoder
      else .error (.conflictingPool pool.address) := by
  have hresolve : .ok encoder = registry.resolve origin := answer_of_unserved hj hunserved
  have hpool : encoder.pool = origin := pool_of_resolve hresolve.symm
  have hknown : (empty.afterAll registry (pools.take k)).find? pool.address = some encoder := by
    rw [find?_afterAll_take, ← haddress, findSome?_take_eq_some hjk hj hunserved]
  refine ⟨hresolve.symm, ?_⟩
  rw [(request_of_getElem?_log h).answer_of_hit hknown, hpool]

/-- The encoder that a request got behaves like one that is resolved for its own pool. -/
theorem Request.behaves (h : cache.Request registry pool (.ok encoder) next)
    (hsound : cache.Sound registry) :
    ∃ fresh, registry.resolve pool = .ok fresh ∧ encoder.Behaves fresh := by
  cases hfind : cache.find? pool.address with
  | none => exact ⟨encoder, (h.answer_of_miss hfind).symm, fun _ => rfl, fun _ => rfl,
      fun _ _ _ => rfl⟩
  | some known =>
    have hanswer := h.answer_of_hit hfind
    split at hanswer
    next hagrees =>
      obtain rfl := Except.ok.inj hanswer
      obtain ⟨_, hresolve⟩ := hsound _ _ hfind
      obtain ⟨hserves, hencoder⟩ := Registry.resolve_eq_ok_iff.mp hresolve
      refine ⟨registry.encoderOf pool, Registry.resolve_eq_ok_iff.mpr
        ⟨hserves.of_agrees hagrees, rfl⟩, ?_⟩
      rw [hencoder]
      exact Registry.behaves_encoderOf hagrees
    next => cases hanswer

/-- How a fresh cache answers pools that are asked for in turn. -/
structure FirstWins (registry : Registry) (pools : List Pool) : Prop where
  requests : (empty.log registry pools).map Prod.fst = pools
  served : ∀ (j k : Nat) (origin pool : Pool) (encoder : PoolEncoder)
    (answer : Except RegistryError PoolEncoder), j < k →
    (empty.log registry pools)[j]? = some (origin, .ok encoder) →
    Unserved (empty.log registry pools) j origin.address →
    (empty.log registry pools)[k]? = some (pool, answer) → origin.address = pool.address →
    registry.resolve origin = .ok encoder ∧ answer = if origin.agrees pool then .ok encoder
      else .error (.conflictingPool pool.address)
  unserved : ∀ (k : Nat) (pool : Pool) (answer : Except RegistryError PoolEncoder),
    (empty.log registry pools)[k]? = some (pool, answer) →
    Unserved (empty.log registry pools) k pool.address → answer = registry.resolve pool
  size : ∀ k : Nat, (empty.afterAll registry (pools.take k)).size =
    (servedAddresses ((empty.log registry pools).take k)).toFinset.card
  refused : ∀ (k : Nat) (pool : Pool) (error : RegistryError),
    (empty.log registry pools)[k]? = some (pool, .error error) →
    empty.afterAll registry (pools.take (k + 1)) = empty.afterAll registry (pools.take k) ∧
    empty.log registry (pools.eraseIdx k) = (empty.log registry pools).eraseIdx k
  behaves : ∀ (k : Nat) (pool : Pool) (encoder : PoolEncoder),
    (empty.log registry pools)[k]? = some (pool, .ok encoder) →
    ∃ fresh, registry.resolve pool = .ok fresh ∧ encoder.Behaves fresh

theorem sound_empty (registry : Registry) : empty.Sound registry := fun _ _ h => nomatch h

/-- In every run the first pool that gets an encoder at an address decides for the address. -/
theorem run_firstWins (registry : Registry) (pools : List Pool) : FirstWins registry pools := by
  constructor
  case requests => exact map_fst_log empty registry pools
  case served =>
    intro j k origin pool encoder answer hjk hj hunserved h haddress
    exact answer_of_served hjk hj hunserved h haddress
  case unserved =>
    intro k pool answer h hunserved
    exact answer_of_unserved h hunserved
  case size => exact size_afterAll_take registry pools
  case refused =>
    intro k pool error h
    exact ⟨(request_of_getElem?_log h).next_of_error, log_eraseIdx h⟩
  case behaves =>
    intro k pool encoder h
    exact (request_of_getElem?_log h).behaves (sound_afterAll (sound_empty registry))

end EncoderCache

end SwapCalldata
