import Mathlib.Tactic

/-! Outcomes of composed steps and of look-ups, taken apart. -/
namespace SwapCalldata.Outcome

variable {ε ε' α β γ : Type}

theorem pure_eq (a : α) : (pure a : Except ε α) = .ok a := rfl

theorem ok_bind (a : α) (f : α → Except ε β) : .ok a >>= f = f a := rfl

theorem bind_eq_ok_iff {x : Except ε α} {f : α → Except ε β} {b : β} :
    x >>= f = .ok b ↔ ∃ a, x = .ok a ∧ f a = .ok b := by
  cases x with
  | error e => simp [bind, Except.bind]
  | ok a => simp [bind, Except.bind]

theorem map_eq_ok_iff {x : Except ε α} {f : α → β} {b : β} :
    x.map f = .ok b ↔ ∃ a, x = .ok a ∧ f a = b := by
  cases x <;> simp [Except.map]

theorem mapError_eq_ok_iff {x : Except ε α} {f : ε → ε'} {a : α} :
    x.mapError f = .ok a ↔ x = .ok a := by
  cases x <;> simp [Except.mapError]

theorem bind_eq_error_iff {x : Except ε α} {f : α → Except ε β} {e : ε} :
    x >>= f = .error e ↔ x = .error e ∨ ∃ a, x = .ok a ∧ f a = .error e := by
  cases x with
  | error e' => simp [bind, Except.bind]
  | ok a => simp [bind, Except.bind]

theorem map_eq_error_iff {x : Except ε α} {f : α → β} {e : ε} :
    x.map f = .error e ↔ x = .error e := by
  cases x <;> simp [Except.map]

theorem mapError_eq_error_iff {x : Except ε α} {f : ε → ε'} {e' : ε'} :
    x.mapError f = .error e' ↔ ∃ e, x = .error e ∧ f e = e' := by
  cases x <;> simp [Except.mapError]

/-- A run that ends in a refusal gets as far as a step that is refused. -/
theorem foldlM_eq_error_iff {f : β → α → Except ε β} {xs : List α} {b : β} {e : ε} :
    xs.foldlM f b = .error e ↔
      ∃ k x b', xs[k]? = some x ∧ (xs.take k).foldlM f b = .ok b' ∧ f b' x = .error e := by
  induction xs generalizing b with
  | nil => simp [pure, Except.pure]
  | cons x xs ih =>
    rw [List.foldlM_cons, bind_eq_error_iff]
    constructor
    · rintro (hfirst | ⟨next, hnext, hrest⟩)
      · exact ⟨0, x, b, rfl, rfl, hfirst⟩
      · obtain ⟨k, y, last, hy, hlast, herror⟩ := ih.mp hrest
        refine ⟨k + 1, y, last, hy, ?_, herror⟩
        rw [List.take_succ_cons, List.foldlM_cons, hnext, ok_bind, hlast]
    · rintro ⟨k, y, last, hy, hlast, herror⟩
      cases k with
      | zero =>
        obtain rfl := Option.some.inj hy
        obtain rfl := Except.ok.inj hlast
        exact Or.inl herror
      | succ k =>
        rw [List.take_succ_cons, List.foldlM_cons, bind_eq_ok_iff] at hlast
        obtain ⟨next, hnext, hlast⟩ := hlast
        exact Or.inr ⟨next, hnext, ih.mpr ⟨k, y, last, hy, hlast, herror⟩⟩

theorem mapM_eq_ok_iff {f : α → Except ε β} {xs : List α} {ys : List β} :
    xs.mapM f = .ok ys ↔ List.Forall₂ (fun x y => f x = .ok y) xs ys := by
  induction xs generalizing ys with
  | nil =>
    rw [List.forall₂_nil_left_iff]
    exact ⟨fun h => (Except.ok.inj h).symm, fun h => h ▸ rfl⟩
  | cons x xs ih =>
    simp only [List.mapM_cons, bind_eq_ok_iff, List.forall₂_cons_left_iff, ih, pure_eq,
      Except.ok.injEq]
    constructor
    · rintro ⟨y, hy, rest, hrest, rfl⟩
      exact ⟨y, rest, hy, hrest, rfl⟩
    · rintro ⟨y, rest, hy, hrest, rfl⟩
      exact ⟨y, hy, rest, hrest, rfl⟩

theorem exists_of_forall₂_append {R : α → β → Prop} {before after : List α} {x : α}
    {ys : List β} (h : List.Forall₂ R (before ++ x :: after) ys) :
    ∃ before' y after', ys = before' ++ y :: after' ∧ R x y ∧ List.Forall₂ R after after' := by
  induction before generalizing ys with
  | nil =>
    obtain ⟨y, after', hx, hafter, rfl⟩ := List.forall₂_cons_left_iff.mp h
    exact ⟨[], y, after', rfl, hx, hafter⟩
  | cons first before ih =>
    obtain ⟨y, rest, _, hrest, rfl⟩ := List.forall₂_cons_left_iff.mp h
    obtain ⟨before', y', after', rfl, hx, hafter⟩ := ih hrest
    exact ⟨y :: before', y', after', rfl, hx, hafter⟩

theorem exists_of_forall₂_mem {R : α → β → Prop} {xs : List α} {ys : List β}
    (h : List.Forall₂ R xs ys) {x : α} (hx : x ∈ xs) : ∃ y ∈ ys, R x y := by
  obtain ⟨before, after, rfl⟩ := List.append_of_mem hx
  obtain ⟨before', y, after', rfl, hxy, _⟩ := exists_of_forall₂_append h
  exact ⟨y, List.mem_append_right _ List.mem_cons_self, hxy⟩

theorem exists_forall₂_iff {R : α → β → Prop} {xs : List α} :
    (∃ ys, List.Forall₂ R xs ys) ↔ ∀ x ∈ xs, ∃ y, R x y := by
  induction xs with
  | nil => simp
  | cons x xs ih =>
    simp only [List.forall₂_cons_left_iff, List.forall_mem_cons, ← ih]
    constructor
    · rintro ⟨_, y, ys, hy, hys, rfl⟩
      exact ⟨⟨y, hy⟩, ys, hys⟩
    · rintro ⟨⟨y, hy⟩, ys, hys⟩
      exact ⟨y :: ys, y, ys, hy, hys, rfl⟩

/-- The outcome is the first of these faults, and without one it is a result. -/
def Reports (x : Except ε α) (faults : List ε) : Prop :=
  ∀ e, x = .error e ↔ faults.head? = some e

theorem Reports.ok (a : α) : Reports (.ok a : Except ε α) [] := fun e => by simp

theorem Reports.error (e : ε) : Reports (.error e : Except ε α) [e] := fun e' => by simp

theorem Reports.exists_ok_iff {x : Except ε α} {faults : List ε} (h : Reports x faults) :
    (∃ a, x = .ok a) ↔ faults = [] := by
  rw [← List.head?_eq_none_iff, Option.eq_none_iff_forall_ne_some]
  cases x with
  | error e => simpa using ⟨e, (h e).mp rfl⟩
  | ok a => simpa using fun e hfault => nomatch (h e).mpr hfault

/-- The later step is reached only without a fault in the earlier one. -/
theorem Reports.bind {x : Except ε α} {f : α → Except ε β} {faults later : List ε}
    (h : Reports x faults) (hlater : ∀ a, x = .ok a → Reports (f a) later) :
    Reports (x >>= f) (faults ++ later) := by
  intro e
  cases hx : x with
  | error e' =>
    have hhead := (h e').mp hx
    obtain ⟨rest, rfl⟩ := List.head?_eq_some_iff.mp hhead
    simp [bind_eq_error_iff]
  | ok a =>
    have hnone : faults = [] := h.exists_ok_iff.mp ⟨a, hx⟩
    rw [hnone, List.nil_append, ok_bind]
    exact hlater a hx e

/-- A last step that only builds the result has no fault. -/
theorem Reports.bind_pure {x : Except ε α} {faults : List ε} (h : Reports x faults) (f : α → β) :
    Reports (x >>= fun a => pure (f a)) faults := by
  have hbind := h.bind fun a _ => Reports.ok (f a)
  rwa [List.append_nil] at hbind

theorem Reports.mapError {x : Except ε α} {faults : List ε} (h : Reports x faults) (f : ε → ε') :
    Reports (x.mapError f) (faults.map f) := by
  intro e
  rw [mapError_eq_error_iff, List.head?_map, Option.map_eq_some_iff]
  exact exists_congr fun e' => and_congr_left' (h e')

/-- A value that may be missing is either taken or made up for. -/
theorem Reports.elim {a? : Option α} {x : Except ε β} {f : α → Except ε β} {missing : List ε}
    {faults : α → List ε} (hmissing : Reports x missing) (h : ∀ a, Reports (f a) (faults a)) :
    Reports (a?.elim x f) (a?.elim missing faults) := by
  cases a? with
  | none => exact hmissing
  | some a => exact h a

theorem Reports.mapM {f : α → Except ε β} {faults : α → List ε} {xs : List α}
    (h : ∀ x ∈ xs, Reports (f x) (faults x)) : Reports (xs.mapM f) (xs.flatMap faults) := by
  induction xs with
  | nil => exact Reports.ok []
  | cons x xs ih =>
    rw [List.mapM_cons, List.flatMap_cons]
    apply Reports.bind (h x List.mem_cons_self)
    intro y _
    have hrest := ih fun x hx => h x (List.mem_cons_of_mem _ hx)
    exact (List.append_nil (xs.flatMap faults)) ▸ hrest.bind fun ys _ => Reports.ok (y :: ys)

theorem toOption_bind_congr {x : Except ε α} {y : Except ε' α} {f : α → Except ε β}
    {g : α → Except ε' β} (h : x.toOption = y.toOption)
    (hrest : ∀ a, (f a).toOption = (g a).toOption) :
    (x >>= f).toOption = (y >>= g).toOption := by
  cases x <;> cases y <;> cases h
  · rfl
  · exact hrest _

theorem toOption_mapError (x : Except ε α) (f : ε → ε') :
    (x.mapError f).toOption = x.toOption := by
  cases x <;> rfl

theorem toOption_mapM_congr {f : α → Except ε γ} {g : β → Except ε' γ} {xs : List α} {ys : List β}
    (h : List.Forall₂ (fun x y => (f x).toOption = (g y).toOption) xs ys) :
    (xs.mapM f).toOption = (ys.mapM g).toOption := by
  induction h with
  | nil => rfl
  | cons hfirst _ ih =>
    rw [List.mapM_cons, List.mapM_cons]
    apply toOption_bind_congr hfirst
    intro _
    exact toOption_bind_congr ih fun _ => rfl

theorem lookup_eq_none_iff [DecidableEq α] {entries : List (α × β)} {key : α} :
    entries.lookup key = none ↔ key ∉ entries.map Prod.fst := by
  rw [List.lookup_eq_none_iff, List.mem_map]
  simp only [bne_iff_ne, ne_eq, not_exists, not_and]
  exact forall₂_congr fun _ _ => not_congr eq_comm

/-- Where no key occurs twice, the order of the entries does not matter. -/
theorem lookup_eq_some_iff [DecidableEq α] {entries : List (α × β)} {key : α} {value : β}
    (h : (entries.map Prod.fst).Nodup) :
    entries.lookup key = some value ↔ (key, value) ∈ entries := by
  induction entries with
  | nil => simp
  | cons entry rest ih =>
    obtain ⟨first, held⟩ := entry
    rw [List.map_cons, List.nodup_cons] at h
    rw [List.lookup_cons, List.mem_cons, Prod.mk.injEq]
    by_cases hkey : key = first
    · subst hkey
      have hnot : (key, value) ∉ rest := fun hmem => h.1 (List.mem_map.mpr ⟨_, hmem, rfl⟩)
      simp [hnot, eq_comm]
    · simpa [hkey, beq_eq_false_iff_ne.mpr hkey] using ih h.2

end SwapCalldata.Outcome
