import SwapCalldata.Route
import Mathlib.Tactic

/-!
Positions of tokens in a pool. A leg has positions exactly when both its tokens are among those of
the pool and are different, and each is then the first occurrence of its token.
-/
namespace SwapCalldata.Pool

/-- The addresses of the tokens, in the canonical order. -/
def tokenAddresses (pool : Pool) : List Address := pool.tokens.map Token.address

/-- The token at a position has this address, and no token before it has. -/
structure FirstAt (pool : Pool) (address : Address) (position : Nat) : Prop where
  here : pool.tokenAddresses[position]? = some address
  before : ∀ earlier < position, pool.tokenAddresses[earlier]? ≠ some address

variable {pool : Pool} {address source target : Address} {position i j : Nat}

theorem indexOf?_eq_findIdx? (pool : Pool) (address : Address) :
    pool.indexOf? address = pool.tokenAddresses.findIdx? (· == address) := by
  simp [indexOf?, tokenAddresses, List.findIdx?_map, Function.comp_def]

theorem FirstAt.lt_length (h : pool.FirstAt address position) :
    position < pool.tokens.length := by
  obtain ⟨hlt, _⟩ := List.getElem?_eq_some_iff.mp h.here
  simpa only [tokenAddresses, List.length_map] using hlt

theorem FirstAt.eq_zero_iff (h : pool.FirstAt address position) :
    position = 0 ↔ pool.tokenAddresses.head? = some address := by
  rw [List.head?_eq_getElem?]
  constructor
  · rintro rfl
    exact h.here
  · intro hhead
    by_contra hne
    exact h.before 0 (Nat.pos_of_ne_zero hne) hhead

theorem indexOf?_eq_some_iff :
    pool.indexOf? address = some position ↔ pool.FirstAt address position := by
  rw [indexOf?_eq_findIdx?, List.findIdx?_eq_some_iff_getElem]
  constructor
  · rintro ⟨hlt, hhere, hbefore⟩
    refine ⟨?_, fun earlier hearlier => ?_⟩
    · rw [List.getElem?_eq_getElem hlt, beq_iff_eq.mp hhere]
    · rw [List.getElem?_eq_getElem (hearlier.trans hlt)]
      have hne := hbefore earlier hearlier
      simpa using hne
  · rintro ⟨hhere, hbefore⟩
    obtain ⟨hlt, hget⟩ := List.getElem?_eq_some_iff.mp hhere
    refine ⟨hlt, beq_iff_eq.mpr hget, fun earlier hearlier => ?_⟩
    have hne := hbefore earlier hearlier
    rw [List.getElem?_eq_getElem (hearlier.trans hlt)] at hne
    simpa using hne

theorem indexOf?_eq_none_iff : pool.indexOf? address = none ↔ address ∉ pool.tokenAddresses := by
  rw [indexOf?_eq_findIdx?, List.findIdx?_eq_none_iff]
  constructor
  · intro h hmem
    simpa using h address hmem
  · intro h other hmem
    rw [beq_eq_false_iff_ne]
    rintro rfl
    exact h hmem

/-- One position is the first of one token only. -/
theorem FirstAt.eq_iff (hi : pool.FirstAt source i) (hj : pool.FirstAt target j) :
    i = j ↔ source = target := by
  constructor
  · rintro rfl
    exact Option.some.inj (hi.here.symm.trans hj.here)
  · rintro rfl
    exact Option.some.inj ((indexOf?_eq_some_iff.mpr hi).symm.trans (indexOf?_eq_some_iff.mpr hj))

theorem indices_eq_ok_iff : pool.indices source target = .ok (i, j) ↔
    pool.FirstAt source i ∧ pool.FirstAt target j ∧ source ≠ target := by
  simp only [← indexOf?_eq_some_iff, indices]
  split
  · simp_all
  · simp_all
  · rename_i i' j' hi' hj'
    have hne := FirstAt.eq_iff (indexOf?_eq_some_iff.mp hi') (indexOf?_eq_some_iff.mp hj')
    rw [hi', hj']
    split
    · simp_all
    · simp only [Except.ok.injEq, Prod.mk.injEq, Option.some.injEq]
      tauto

theorem exists_indices_iff : (∃ pair, pool.indices source target = .ok pair) ↔
    source ∈ pool.tokenAddresses ∧ target ∈ pool.tokenAddresses ∧ source ≠ target := by
  have hplace (address : Address) :
      (∃ position, pool.FirstAt address position) ↔ address ∈ pool.tokenAddresses := by
    simp only [← indexOf?_eq_some_iff, ← Option.isSome_iff_exists, Option.isSome_iff_ne_none,
      ne_eq, indexOf?_eq_none_iff, not_not]
  simp only [Prod.exists, indices_eq_ok_iff, ← hplace]
  tauto

end SwapCalldata.Pool
