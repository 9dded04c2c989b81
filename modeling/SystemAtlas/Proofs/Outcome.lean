import Mathlib.Data.List.Forall2
import SystemAtlas.Progress

/-! # Steps that succeed

A chain of steps succeeds if each of them does, and a run over a list if every step along it does.
What each step keeps, the whole run keeps (`foldlM_invariant`). -/

namespace SystemAtlas

variable {ε σ τ α β : Type}

theorem bind_eq_ok_iff {x : Except ε α} {f : α → Except ε β} {b : β} :
    x >>= f = .ok b ↔ ∃ a, x = .ok a ∧ f a = .ok b := by
  cases x with
  | ok a =>
    constructor
    · intro h
      exact ⟨a, rfl, h⟩
    · rintro ⟨_, ha, h⟩
      exact Except.ok.inj ha ▸ h
  | error e =>
    constructor
    · intro h
      cases h
    · rintro ⟨_, ha, -⟩
      cases ha

theorem pure_eq_ok_iff {a b : α} : (pure a : Except ε α) = .ok b ↔ b = a := by
  rw [pure, Except.instMonad]
  exact ⟨fun h => (Except.ok.inj h).symm, fun h => h ▸ rfl⟩

theorem map_eq_ok_iff {x : Except ε α} {f : α → β} {b : β} :
    f <$> x = .ok b ↔ ∃ a, x = .ok a ∧ f a = b := by
  cases x with
  | ok a =>
    constructor
    · intro h
      exact ⟨a, rfl, Except.ok.inj h⟩
    · rintro ⟨_, ha, h⟩
      exact Except.ok.inj ha ▸ h ▸ rfl
  | error e =>
    constructor
    · intro h
      cases h
    · rintro ⟨_, ha, -⟩
      cases ha

theorem mapError_eq_ok_iff {x : Except ε α} {f : ε → τ} {a : α} :
    x.mapError f = .ok a ↔ x = .ok a := by
  cases x <;> simp [Except.mapError]

theorem eq_ok_of_isOk [Inhabited α] {x : Except ε α} (h : x.isOk = true) :
    x = .ok (x.toOption.getD default) := by
  cases x with
  | ok a => rfl
  | error e => cases h

theorem mapM_eq_ok_iff {f : α → Except ε β} {xs : List α} {ys : List β} :
    xs.mapM f = .ok ys ↔ List.Forall₂ (fun x y => f x = .ok y) xs ys := by
  induction xs generalizing ys with
  | nil =>
    rw [List.mapM_nil, List.forall₂_nil_left_iff]
    exact ⟨fun h => (Except.ok.inj h).symm, fun h => h ▸ rfl⟩
  | cons x xs ih =>
    rw [List.mapM_cons, bind_eq_ok_iff]
    constructor
    · rintro ⟨y, hy, h⟩
      obtain ⟨zs, hzs, h⟩ := bind_eq_ok_iff.mp h
      cases Except.ok.inj h
      exact .cons hy (ih.mp hzs)
    · rintro (_ | ⟨hy, hys⟩)
      exact ⟨_, hy, bind_eq_ok_iff.mpr ⟨_, ih.mpr hys, rfl⟩⟩

/-- What makes a list one by one makes it by a function. -/
theorem exists_map_of_mapM [Inhabited β] {f : α → Except ε β} {xs : List α} {ys : List β}
    (h : xs.mapM f = .ok ys) : ∃ g : α → β, (∀ x ∈ xs, f x = .ok (g x)) ∧ ys = xs.map g := by
  rw [mapM_eq_ok_iff] at h
  refine ⟨fun x => (f x).toOption.getD default, ?_⟩
  induction h with
  | nil => exact ⟨fun _ hx => absurd hx List.not_mem_nil, rfl⟩
  | cons hx _ ih =>
    obtain ⟨hxs, rfl⟩ := ih
    refine ⟨fun z hz => ?_, by rw [List.map_cons, hx]; rfl⟩
    rcases List.mem_cons.mp hz with rfl | hz
    · simp only [hx]
      rfl
    · exact hxs z hz

theorem mapM_eq_pure_of_forall {m : Type → Type} [Monad m] [LawfulMonad m] {f : α → m β}
    {g : α → β} {xs : List α} (h : ∀ x ∈ xs, f x = pure (g x)) : xs.mapM f = pure (xs.map g) := by
  induction xs with
  | nil => rw [List.mapM_nil, List.map_nil]
  | cons x xs ih =>
    obtain ⟨hx, hxs⟩ := List.forall_mem_cons.mp h
    rw [List.mapM_cons, hx, pure_bind, ih hxs, pure_bind, List.map_cons]

theorem mapM_eq_ok_of_forall {f : α → Except ε β} {g : α → β} {xs : List α}
    (h : ∀ x ∈ xs, f x = .ok (g x)) : xs.mapM f = .ok (xs.map g) :=
  mapM_eq_pure_of_forall h

theorem exists_mapM_eq_ok_iff {f : α → Except ε β} {xs : List α} :
    (∃ ys, xs.mapM f = .ok ys) ↔ ∀ x ∈ xs, ∃ y, f x = .ok y := by
  simp only [mapM_eq_ok_iff]
  induction xs with
  | nil => exact ⟨fun _ x hx => absurd hx List.not_mem_nil, fun _ => ⟨[], .nil⟩⟩
  | cons x xs ih =>
    rw [List.forall_mem_cons, ← ih]
    constructor
    · rintro ⟨_, _ | ⟨hx, hxs⟩⟩
      exact ⟨⟨_, hx⟩, ⟨_, hxs⟩⟩
    · rintro ⟨⟨y, hy⟩, ⟨ys, hys⟩⟩
      exact ⟨y :: ys, .cons hy hys⟩

/-- What filters a list one by one filters it by a function. -/
theorem exists_filter_of_filterM {f : α → Except ε Bool} {xs ys : List α}
    (h : xs.filterM f = .ok ys) : ∃ keep : α → Bool, (∀ x ∈ xs, f x = .ok (keep x)) ∧
      ys = xs.filter keep := by
  refine ⟨fun x => (f x).toOption.getD false, ?_⟩
  -- the kept elements are collected in reverse order
  have hrun : ∀ kept : List α, xs.filterAuxM f kept = .ok ys.reverse →
      (∀ x ∈ xs, f x = .ok ((f x).toOption.getD false)) ∧
        ys = kept.reverse ++ xs.filter fun x => (f x).toOption.getD false := by
    clear h
    induction xs with
    | nil =>
      intro kept h
      cases Except.ok.inj h
      exact ⟨fun _ hx => absurd hx List.not_mem_nil, by simp⟩
    | cons x xs ih =>
      intro kept h
      rw [List.filterAuxM] at h
      obtain ⟨b, hb, h⟩ := bind_eq_ok_iff.mp h
      obtain ⟨hxs, hys⟩ := ih _ h
      have hx : (f x).toOption.getD false = b := by rw [hb]; rfl
      refine ⟨List.forall_mem_cons.mpr ⟨by rw [hx, hb], hxs⟩, ?_⟩
      rw [hys, List.filter_cons, hx]
      cases b <;> simp
  obtain ⟨zs, hzs, h⟩ := bind_eq_ok_iff.mp h
  cases Except.ok.inj h
  exact hrun [] (by rwa [List.reverse_reverse])

theorem filterM_eq_ok_of_forall {f : α → Except ε Bool} {keep : α → Bool} {xs : List α}
    (h : ∀ x ∈ xs, f x = .ok (keep x)) : xs.filterM f = .ok (xs.filter keep) := by
  have hrun : ∀ kept : List α,
      xs.filterAuxM f kept = .ok ((xs.filter keep).reverse ++ kept) := by
    induction xs with
    | nil => exact fun kept => rfl
    | cons x xs ih =>
      intro kept
      obtain ⟨hx, hxs⟩ := List.forall_mem_cons.mp h
      rw [List.filterAuxM, hx]
      refine (ih hxs _).trans ?_
      cases hkeep : keep x <;> simp [hkeep]
  rw [List.filterM, hrun, List.append_nil]
  exact congrArg Except.ok (List.reverse_reverse _)

theorem exists_of_forall₂_mem {R : α → β → Prop} {xs : List α} {ys : List β} {y : β}
    (h : List.Forall₂ R xs ys) (hy : y ∈ ys) : ∃ x ∈ xs, R x y := by
  induction h with
  | nil => cases hy
  | cons hx _ ih =>
    rcases List.mem_cons.mp hy with rfl | hy
    · exact ⟨_, List.mem_cons_self, hx⟩
    · obtain ⟨x, hmem, hx⟩ := ih hy
      exact ⟨x, List.mem_cons_of_mem _ hmem, hx⟩

/-- Lists made of what is paired have the same elements if those made of every two have. -/
theorem mem_flatten_congr {f f' : α → Except ε (List β)} {xs : List α} {yss yss' : List (List β)}
    (h : xs.mapM f = .ok yss) (h' : xs.mapM f' = .ok yss')
    (hf : ∀ x ys ys', f x = .ok ys → f' x = .ok ys' → ∀ y, y ∈ ys ↔ y ∈ ys') (y : β) :
    y ∈ yss.flatten ↔ y ∈ yss'.flatten := by
  rw [mapM_eq_ok_iff] at h h'
  induction h generalizing yss' with
  | nil =>
    cases h'
    rfl
  | cons hx _ ih =>
    obtain _ | ⟨hx', hxs'⟩ := h'
    rw [List.flatten_cons, List.flatten_cons, List.mem_append, List.mem_append,
      hf _ _ _ hx hx' y, ih hxs']

theorem mem_flatten_of_mapM {f : α → Except ε (List β)} {xs : List α} {yss : List (List β)}
    (h : xs.mapM f = .ok yss) {y : β} :
    y ∈ yss.flatten ↔ ∃ x ∈ xs, ∃ ys, f x = .ok ys ∧ y ∈ ys := by
  rw [mapM_eq_ok_iff] at h
  induction h with
  | nil => simp
  | cons hx _ ih => simp [ih, hx]

theorem foldlM_cons_eq_ok_iff {step : σ → α → Except ε σ} {s t : σ} {x : α} {xs : List α} :
    (x :: xs).foldlM step s = .ok t ↔ ∃ m, step s x = .ok m ∧ xs.foldlM step m = .ok t := by
  rw [List.foldlM_cons, bind_eq_ok_iff]

/-- What every step of a run keeps, the run keeps. -/
theorem foldlM_invariant {step : σ → α → Except ε σ} {P : σ → Prop} {xs : List α} {s t : σ}
    (hstep : ∀ s x t, x ∈ xs → P s → step s x = .ok t → P t) (hs : P s)
    (h : xs.foldlM step s = .ok t) : P t := by
  induction xs generalizing s with
  | nil => exact Except.ok.inj h ▸ hs
  | cons x xs ih =>
    obtain ⟨m, hm, h⟩ := foldlM_cons_eq_ok_iff.mp h
    refine ih (fun s y t hy => hstep s y t (List.mem_cons_of_mem _ hy)) ?_ h
    exact hstep s x m List.mem_cons_self hs hm

/-- A run is followed by another one if each of its steps is, as long as the state keeps `P`. -/
theorem foldlM_simulates {step : σ → α → Except ε σ} {step' : τ → β → Except ε τ} {P : σ → Prop}
    {f : σ → τ} {h : α → β} {xs : List α} {s t : σ}
    (hstep : ∀ s x t, x ∈ xs → P s → step s x = .ok t → step' (f s) (h x) = .ok (f t) ∧ P t)
    (hs : P s) (hrun : xs.foldlM step s = .ok t) :
    (xs.map h).foldlM step' (f s) = .ok (f t) ∧ P t := by
  induction xs generalizing s with
  | nil =>
    cases Except.ok.inj hrun
    exact ⟨rfl, hs⟩
  | cons x xs ih =>
    obtain ⟨m, hm, hrun⟩ := foldlM_cons_eq_ok_iff.mp hrun
    obtain ⟨hm', hPm⟩ := hstep s x m List.mem_cons_self hs hm
    obtain ⟨ht, hPt⟩ := ih (fun s y t hy => hstep s y t (List.mem_cons_of_mem _ hy)) hPm hrun
    exact ⟨foldlM_cons_eq_ok_iff.mpr ⟨_, hm', ht⟩, hPt⟩

theorem Progress.result_run (step : σ → α → Except ε σ) (s : σ) (xs : List α) :
    (run step s xs).result = xs.foldlM step s := by
  induction xs generalizing s with
  | nil => rfl
  | cons x xs ih =>
    rw [List.foldlM_cons, run]
    cases step s x with
    | error e => rfl
    | ok m => exact ih m

/-- What every step keeps holds of the state reached, whether the steps failed or not. -/
theorem Progress.state_run {step : σ → α → Except ε σ} {P : σ → Prop} {xs : List α} {s : σ}
    (hstep : ∀ s x t, P s → step s x = .ok t → P t) (hs : P s) : P (run step s xs).state := by
  induction xs generalizing s with
  | nil => exact hs
  | cons x xs ih =>
    rw [run]
    split
    · next m hm => exact ih (hstep s x m hs hm)
    · exact hs

theorem Progress.result_eq_ok {p : Progress ε σ} (h : p.failure = none) :
    p.result = .ok p.state := by
  rw [result, h]

end SystemAtlas
